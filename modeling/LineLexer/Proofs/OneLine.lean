import LineLexer.Proofs.ReadBack

/-! The compact form of a JSON value is on one line: no symbol is written with a control character,
whatever text a string holds. -/

namespace LineLexer

namespace Json

def NoControl (s : List Char) : Prop := ∀ c ∈ s, 0x20 ≤ c.toNat

theorem noControl_append {s t : List Char} : NoControl (s ++ t) ↔ NoControl s ∧ NoControl t :=
  List.forall_mem_append

theorem noControl_cons {c : Char} {s : List Char} :
    NoControl (c :: s) ↔ 0x20 ≤ c.toNat ∧ NoControl s :=
  List.forall_mem_cons

theorem noControl_digits (run : DigitRun) : NoControl run.chars := by
  intro c hc
  have hdigit := run.isDigit c hc
  simp only [Char.isDigit, Bool.and_eq_true, decide_eq_true_eq, ge_iff_le,
    UInt32.le_iff_toNat_le] at hdigit
  have hle : 48 ≤ c.toNat := hdigit.1
  omega

theorem IsNumber.noControl {s : List Char} (h : IsNumber s) : NoControl s := by
  have hunsigned : ∀ t, IsUnsigned t → NoControl t := by
    intro t ht
    cases ht with
    | @parts w f e whole fraction exponent =>
      refine noControl_append.mpr ⟨noControl_append.mpr ⟨?_, ?_⟩, ?_⟩
      · cases whole with
        | zero => simp [NoControl]
        | run run => exact noControl_digits run
      · cases fraction with
        | none => simp [NoControl]
        | places run => exact noControl_cons.mpr ⟨by decide, noControl_digits run⟩
      · cases exponent with
        | none => simp [NoControl]
        | unsigned hl run =>
          refine noControl_cons.mpr ⟨?_, noControl_digits run⟩
          rcases hl with rfl | rfl <;> decide
        | signed hl hmark run =>
          refine noControl_cons.mpr ⟨?_, noControl_cons.mpr ⟨?_, noControl_digits run⟩⟩
          · rcases hl with rfl | rfl <;> decide
          · rcases hmark with rfl | rfl <;> decide
  cases h with
  | positive h => exact hunsigned _ h
  | negative h => exact noControl_cons.mpr ⟨by decide, hunsigned _ h⟩

theorem IsHexDigit.le_toNat {c : Char} {n : Nat} (h : IsHexDigit c n) : 0x20 ≤ c.toNat := by
  have hlower : ∀ d ∈ lowerDigits, 0x20 ≤ d.toNat := by simp [lowerDigits]
  have hupper : ∀ d ∈ upperDigits, 0x20 ≤ d.toNat := by simp [upperDigits]
  rcases h with h | h
  · exact hlower c (List.mem_of_getElem? h)
  · exact hupper c (List.mem_of_getElem? h)

theorem ArePieces.noControl {ps : List Piece} {s : List Char} (h : ArePieces ps s) :
    NoControl s := by
  induction h with
  | nil => simp [NoControl]
  | cons hp hps ih =>
    refine noControl_append.mpr ⟨?_, ih⟩
    cases hp with
    | plain control quote slash => simpa [NoControl] using control
    | letter hl =>
      have hall : ∀ l ∈ letters, 0x20 ≤ l.1.toNat := by decide
      have he := hall _ hl
      simpa [NoControl] using he
    | codeUnit ha hb hc hd =>
      simp [NoControl, ha.le_toNat, hb.le_toNat, hc.le_toNat, hd.le_toNat]

theorem Symbol.IsWritten.noControl {x : Symbol} {s : List Char} (h : x.IsWritten s) :
    NoControl s := by
  cases h with
  | number h => exact h.noControl
  | string hs ht =>
    have hquote : 0x20 ≤ '"'.toNat := by decide
    have hend : NoControl ['"'] := noControl_cons.mpr ⟨hquote, by simp [NoControl]⟩
    exact noControl_append.mpr ⟨noControl_cons.mpr ⟨hquote, hs.noControl⟩, hend⟩
  | _ => simp [NoControl]

section printing

theorem noControl_items {v : Json} {items : List Json}
    (h : ∀ w ∈ v :: items, NoControl w.compact.toList) :
    NoControl (compactItems (v :: items)).toList := by
  induction items generalizing v with
  | nil =>
    rw [compactItems]
    exact h v (by simp)
  | cons w items ih =>
    have hv := h v (by simp)
    have hrest := ih fun u hu => h u (List.mem_cons_of_mem _ hu)
    rw [compactItems, String.toList_append, String.toList_append]
    exact noControl_append.mpr ⟨noControl_append.mpr ⟨hv, by simp [NoControl]⟩, hrest⟩

theorem noControl_member {k : Option String} {v : Json} (hk : k.isSome = true)
    (hv : NoControl v.compact.toList) :
    NoControl (printString k ++ ":" ++ v.compact).toList := by
  obtain ⟨k, rfl⟩ := Option.isSome_iff_exists.mp hk
  simp only [String.toList_append, noControl_append]
  exact ⟨⟨(isWritten_quoted k).noControl, by simp [NoControl]⟩, hv⟩

theorem noControl_members {m : Option String × Json} {members : List (Option String × Json)}
    (hk : ∀ n ∈ m :: members, n.1.isSome = true)
    (h : ∀ n ∈ m :: members, NoControl n.2.compact.toList) :
    NoControl (compactMembers (m :: members)).toList := by
  induction members generalizing m with
  | nil =>
    rw [compactMembers]
    exact noControl_member (hk m (by simp)) (h m (by simp))
  | cons n members ih =>
    have hm := noControl_member (hk m (by simp)) (h m (by simp))
    have hrest := ih (fun u hu => hk u (List.mem_cons_of_mem _ hu))
      (fun u hu => h u (List.mem_cons_of_mem _ hu))
    rw [compactMembers, String.toList_append, String.toList_append]
    exact noControl_append.mpr ⟨noControl_append.mpr ⟨hm, by simp [NoControl]⟩, hrest⟩

/-- The compact form of a value is on one line. -/
theorem noControl_compact {v : Json} (h : Printable v) : NoControl v.compact.toList := by
  induction h with
  | null => simp [compact, NoControl]
  | bool b => cases b <;> simp [compact, NoControl]
  | number hn =>
    rw [compact]
    exact hn.noControl
  | text s =>
    rw [text, compact]
    exact (isWritten_quoted s).noControl
  | @array items h ih =>
    have hitems : NoControl (compactItems items).toList := by
      cases items with
      | nil => simp [compactItems, NoControl]
      | cons v items => exact noControl_items ih
    simp only [compact, String.toList_append, noControl_append]
    exact ⟨⟨by simp [NoControl], hitems⟩, by simp [NoControl]⟩
  | @object members keys values ih =>
    have hmembers : NoControl (compactMembers members).toList := by
      cases members with
      | nil => simp [compactMembers, NoControl]
      | cons m members => exact noControl_members keys ih
    simp only [compact, String.toList_append, noControl_append]
    exact ⟨⟨by simp [NoControl], hmembers⟩, by simp [NoControl]⟩

end printing

end Json

end LineLexer
