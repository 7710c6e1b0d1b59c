import LineLexer.Log

/-! The level that decides for a target. No target of a phase begins with that of another one, so at
most one phase decides for a target, and without one the level that is set for all does. -/

namespace LineLexer

/-- The target is the one of this phase, or is longer and begins with it. -/
def Phase.Begins (p : Phase) (target : String) : Prop := p.target.toList <+: target.toList

/-- The level that is set for this phase in particular. -/
def LogLimits.own (limits : LogLimits) : Phase → Option LogLevel
  | .lexer => limits.lexer
  | .api => limits.api
  | .vfs => limits.vfs
  | .cli => none

variable {p q : Phase} {target : String}

theorem Phase.begins_target (p : Phase) : p.Begins p.target := List.prefix_refl _

theorem Phase.mem_all (p : Phase) : p ∈ all := by
  cases p <;> decide

theorem Phase.eq_of_begins_target (h : p.Begins q.target) : p = q := by
  have hall : ∀ p ∈ all, ∀ q ∈ all,
      p.target.toList.isPrefixOf q.target.toList = true → p = q := by
    decide
  exact hall p p.mem_all q q.mem_all (List.isPrefixOf_iff_prefix.mpr h)

theorem Phase.eq_of_begins (hp : p.Begins target) (hq : q.Begins target) : p = q := by
  rcases List.prefix_or_prefix_of_prefix hp hq with h | h
  · exact eq_of_begins_target h
  · exact (eq_of_begins_target h).symm

theorem Phase.filter_begins (h : p.Begins target) :
    all.filter (fun q => q.target.toList.isPrefixOf target.toList) = [p] := by
  have hone : ∀ q ∈ all, q.target.toList.isPrefixOf target.toList = decide (q = p) := by
    intro q _
    rw [Bool.eq_iff_iff, List.isPrefixOf_iff_prefix, decide_eq_true_eq]
    constructor
    · exact fun hq => eq_of_begins hq h
    · rintro rfl
      exact h
  rw [List.filter_congr hone]
  cases p <;> rfl

namespace LogLimits

variable (limits : LogLimits)

theorem levelFor_target (p : Phase) :
    limits.levelFor p.target = (limits.own p).getD limits.global := by
  rw [levelFor]
  cases p with
  | lexer => rfl
  | api => rfl
  | vfs => rfl
  | cli => rfl

/-- Only the targets of the phases themselves are known here, not what begins with them. -/
theorem levelFor_of_ne (h : ∀ p : Phase, target ≠ p.target) :
    limits.levelFor target = limits.global := by
  rw [levelFor, if_neg (h .lexer), if_neg (h .api), if_neg (h .vfs)]
  rfl

end LogLimits

namespace LogFilter

variable (limits : LogLimits)

theorem entries_ofLimits (target : String) :
    (ofLimits limits).entries.filter (fun e => e.1.toList.isPrefixOf target.toList) =
      (Phase.all.filter fun p => p.target.toList.isPrefixOf target.toList).map
        fun p => (p.target, limits.levelFor p.target) := by
  rw [ofLimits, List.filter_map]
  rfl

theorem levelFor_of_begins (h : p.Begins target) :
    (ofLimits limits).levelFor target = limits.levelFor p.target := by
  rw [levelFor, entries_ofLimits, Phase.filter_begins h]
  rfl

theorem levelFor_of_not_begins (h : ∀ p : Phase, ¬ p.Begins target) :
    (ofLimits limits).levelFor target = limits.global := by
  have hnone : (Phase.all.filter fun p => p.target.toList.isPrefixOf target.toList) = [] := by
    rw [List.filter_eq_nil_iff]
    intro p _ hp
    exact h p (List.isPrefixOf_iff_prefix.mp hp)
  rw [levelFor, entries_ofLimits, hnone]
  rfl

theorem enables_iff (f : LogFilter) (target : String) (level : LogLevel) :
    f.enables target level = true ↔ (f.levelFor target).severity ≤ level.severity := by
  rw [enables, LogLevel.passes, decide_eq_true_eq]

/-- A filter lets through the levels from the most severe one down to its limit. -/
theorem filter_enables_prefix (f : LogFilter) (target : String) :
    [.error, .warn, .info, .debug, .trace].filter (f.enables target) <+:
      ([.error, .warn, .info, .debug, .trace] : List LogLevel) := by
  have hlimit : f.enables target = fun level => level.passes (f.levelFor target) := rfl
  rw [hlimit]
  cases f.levelFor target <;> decide

/-- The filter asks the phase with whose target a target begins, if there is one; there is at most
one. The limits tell the same of any target that is a phase's own or begins with none, but for one
that is longer than a phase's they give the level for all, whatever is set for the phase. -/
theorem enables_ofLimits (limits : LogLimits) (target : String) :
    let filter := ofLimits limits
    (∀ p q : Phase, p.Begins target → q.Begins target → p = q) ∧
      (∀ p : Phase, p.Begins target → ∀ level, filter.enables target level = true ↔
        (limits.levelFor p.target).severity ≤ level.severity) ∧
      ((∀ p : Phase, ¬ p.Begins target) → ∀ level, filter.enables target level = true ↔
        limits.global.severity ≤ level.severity) ∧
      [.error, .warn, .info, .debug, .trace].filter (filter.enables target) <+:
        ([.error, .warn, .info, .debug, .trace] : List LogLevel) ∧
      ((∃ p : Phase, target = p.target) ∨ (∀ p : Phase, ¬ p.Begins target) →
        ∀ level, filter.enables target level = true ↔
          (limits.levelFor target).severity ≤ level.severity) ∧
      ∀ (p : Phase) (own : LogLevel), p.Begins target → target ≠ p.target →
        limits.own p = some own →
        limits.levelFor target = limits.global ∧
          ∀ level, filter.enables target level = true ↔ own.severity ≤ level.severity := by
  intro filter
  have hbegins : ∀ p : Phase, p.Begins target → ∀ level, filter.enables target level = true ↔
      (limits.levelFor p.target).severity ≤ level.severity := by
    intro p hp level
    rw [enables_iff, levelFor_of_begins limits hp]
  have hnone : (∀ p : Phase, ¬ p.Begins target) → ∀ level, filter.enables target level = true ↔
      limits.global.severity ≤ level.severity := by
    intro h level
    rw [enables_iff, levelFor_of_not_begins limits h]
  refine ⟨fun p q => Phase.eq_of_begins, hbegins, hnone, filter.filter_enables_prefix target,
    ?_, ?_⟩
  · rintro (⟨p, rfl⟩ | h)
    · exact hbegins p p.begins_target
    · have hglobal : limits.levelFor target = limits.global :=
        limits.levelFor_of_ne fun p he => h p (he ▸ p.begins_target)
      rw [hglobal]
      exact hnone h
  · intro p own hp hne hown
    constructor
    · refine limits.levelFor_of_ne fun q he => ?_
      have hq : q = p := Phase.eq_of_begins (he ▸ q.begins_target) hp
      exact hne (hq ▸ he)
    · have hlevel : limits.levelFor p.target = own := by
        rw [limits.levelFor_target, hown, Option.getD_some]
      rw [← hlevel]
      exact hbegins p hp

example :
    let limits : LogLimits := { lexer := some .trace }
    (LogFilter.ofLimits limits).enables "basil::lexer::scan" .trace = true ∧
      limits.levelFor "basil::lexer::scan" = .warn := by
  decide

end LogFilter

end LineLexer
