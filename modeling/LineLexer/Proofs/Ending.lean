import LineLexer.Proofs.Reading

/-! What may be cut off a line. Behind a split the line may end, and a carriage return at the end
of a line is a gap like any other: a scan finds the same without it. -/

namespace LineLexer

theorem Item.EndsBefore.of_append {i : Item} {s rest : List Char} (h : i.EndsBefore (s ++ rest)) :
    i.EndsBefore s := by
  cases i with
  | gap c hc => trivial
  | lexeme l =>
    intro hn c hc
    refine h hn c ?_
    cases s with
    | nil => simp at hc
    | cons d s => simpa using hc

/-- What stands behind the items of a split may be cut short. -/
theorem Reads.cut {s kept more : List Char} {items : List Item}
    (h : Reads s items (kept ++ more)) : Reads (itemsText items ++ kept) items kept := by
  generalize hrest : kept ++ more = rest at h
  induction h with
  | done => exact .done kept
  | @step i s rest items ends h ih =>
    have hs : s = (itemsText items ++ kept) ++ more := by
      rw [h.eq_append, ← hrest, List.append_assoc]
    have htext : itemsText (i :: items) ++ kept = i.text ++ (itemsText items ++ kept) := by
      simp [itemsText]
    rw [hs] at ends
    rw [htext]
    exact .step ends.of_append (ih hrest)

/-- The items of a split are a split of their own text. -/
theorem Reads.truncate {s rest : List Char} {items : List Item} (h : Reads s items rest) :
    Reads (itemsText items) items [] := by
  simpa using @Reads.cut s [] rest items h

theorem itemsFound_append (strip : Bool) (p : Position) (items more : List Item) :
    itemsFound strip p (items ++ more) =
      itemsFound strip p items ++ itemsFound strip (p.after (itemsText items)) more := by
  induction items generalizing p with
  | nil => rfl
  | cons i items ih =>
    have hp : p.after (itemsText (i :: items)) = (p.after i.text).after (itemsText items) := by
      rw [← Position.after_append]
      rfl
    rw [List.cons_append, itemsFound, itemsFound, ih, hp, List.append_assoc]

theorem dropReturn_append_right {s t : List Char} (h : t = [] → s.getLast? ≠ some '\r') :
    dropReturn (s ++ t) = s ++ dropReturn t := by
  by_cases ht : t = []
  · subst ht
    simp [dropReturn, h rfl]
  · have hlast : (s ++ t).getLast? = t.getLast? := by
      rw [List.getLast?_append, List.getLast?_eq_some_getLast ht, Option.some_or]
    rw [dropReturn, dropReturn, hlast, List.dropLast_append_of_ne_nil ht]
    split <;> rfl

theorem DigitRun.getLast?_ne_return (run : DigitRun) : run.chars.getLast? ≠ some '\r' :=
  fun h => absurd (run.isDigit _ (List.mem_of_getLast? h)) (by decide)

theorem Lexeme.getLast?_ne_return (l : Lexeme) : l.text.getLast? ≠ some '\r' := by
  intro h
  have hdigit : ¬ '\r'.isDigit = true := by decide
  cases l with
  | int run fits => exact run.getLast?_ne_return h
  | float whole fraction digits =>
    rcases List.mem_append.mp (List.mem_of_getLast? h) with hm | hm
    · exact hdigit (whole.isDigit _ hm)
    · rcases List.mem_cons.mp hm with hm | hm
      · exact absurd hm (by decide)
      · exact hdigit (digits _ hm)
  | str mark body quote closed =>
    rw [Lexeme.text, List.getLast?_concat] at h
    exact absurd (Option.some.inj h ▸ quote) (by decide)
  | operator op => cases op <;> simp [Lexeme.text, Operator.toChar] at h

/-- In a line that is read to its end a scan finds the same after `trim`. -/
def Unnoticed (trim : List Char → List Char) : Prop :=
  ∀ s items, Reads s items [] → ∀ strip p,
    LineScan.ofChars strip p (trim s) = LineScan.ofChars strip p s

theorem unnoticed_id : Unnoticed id := fun _ _ _ _ _ => rfl

theorem unnoticed_dropReturn : Unnoticed dropReturn := by
  intro s items h strip p
  by_cases hs : s.getLast? = some '\r'
  · obtain rfl : s = itemsText items := by simpa using h.eq_append
    rcases List.eq_nil_or_concat items with rfl | ⟨init, i, rfl⟩
    · simp [itemsText] at hs
    · rw [List.concat_eq_append] at h hs ⊢
      have htext : itemsText (init ++ [i]) = itemsText init ++ i.text := by
        simp [itemsText]
      cases i with
      | lexeme l =>
        obtain ⟨c, hc⟩ := Option.ne_none_iff_exists'.mp
          (mt List.getLast?_eq_none_iff.mp l.text_ne_nil)
        rw [htext, Item.text, List.getLast?_append, hc, Option.some_or, ← hc] at hs
        exact absurd hs l.getLast?_ne_return
      | gap c hc =>
        rw [htext, Item.text, List.getLast?_concat] at hs
        obtain rfl : c = '\r' := Option.some.inj hs
        have hdrop : dropReturn (itemsText (init ++ [.gap '\r' hc])) = itemsText init := by
          rw [htext, Item.text, dropReturn, List.getLast?_concat, if_pos rfl,
            List.dropLast_concat]
        have hblank : CharClass.of '\r' ≠ .other := by decide
        obtain ⟨middle, hinit, _⟩ := h.split
        rw [hdrop, LineScan.ofChars_of_reads h, LineScan.ofChars_of_reads hinit.truncate,
          itemsFound_append]
        simp [itemsFound, Item.found, hblank, LineScan.ofChars]
  · rw [dropReturn, if_neg hs]

end LineLexer
