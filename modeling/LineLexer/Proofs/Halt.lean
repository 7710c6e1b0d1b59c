import LineLexer.Proofs.Reading

/-! Where the scan of a line ends under a policy. A rejected character ends it as a fault does, so
under every policy a line is items that the policy admits, up to its end or to a halt. -/

namespace LineLexer

/-- The item is a character that begins nothing. -/
def Item.isStray : Item → Bool
  | lexeme _ => false
  | gap c _ => CharClass.of c == .other

def Policy.Admits (policy : Policy) (items : List Item) : Prop :=
  policy = .reject → ∀ i ∈ items, i.isStray = false

/-- `Halt policy kind text rest` says that a scan under `policy` fails for `kind` where a line goes
on with `text` and then `rest`, and shows `text`. -/
inductive Halt (policy : Policy) : LexErrorKind → List Char → List Char → Prop where
  | fault {kind : LexErrorKind} {text rest : List Char} (h : Fault kind text rest) :
      Halt policy kind text rest
  | stray {c : Char} (reject : policy = .reject) (other : CharClass.of c = .other)
      (rest : List Char) : Halt policy .unrecognizedCharacter [c] rest

theorem Halt.text_ne_nil {policy : Policy} {kind : LexErrorKind} {text rest : List Char}
    (h : Halt policy kind text rest) : text ≠ [] := by
  cases h with
  | fault h =>
    obtain ⟨c, s, hs⟩ := h.exists_cons
    simp [hs]
  | stray => simp

theorem Policy.Admits.cons {policy : Policy} {i : Item} {items : List Item}
    (hi : policy = .reject → i.isStray = false) (h : policy.Admits items) :
    policy.Admits (i :: items) := by
  intro hp j hj
  rcases List.mem_cons.mp hj with rfl | hj
  · exact hi hp
  · exact h hp j hj

/-- Under every policy a line is admitted items up to its end or up to a halt. -/
theorem exists_reads (policy : Policy) (s : List Char) :
    ∃ items rest, Reads s items rest ∧ policy.Admits items ∧
      (rest = [] ∨ ∃ kind text more, Halt policy kind text more ∧ rest = text ++ more) := by
  induction hn : s.length using Nat.strong_induction_on generalizing s with
  | h n ih =>
    cases s with
    | nil => exact ⟨[], [], .done [], by simp [Policy.Admits], .inl rfl⟩
    | cons c t =>
      generalize hs : c :: t = s at hn
      have hstart : Start s := hs ▸ start_cons c t
      cases hstart with
      | @gap c hc more =>
        by_cases hr : policy = .reject ∧ CharClass.of c = .other
        · exact ⟨[], _, .done _, by simp [Policy.Admits],
            .inr ⟨_, _, _, .stray hr.1 hr.2 more, rfl⟩⟩
        · obtain ⟨items, rest, h, ha, hrest⟩ := ih _ (by simp [← hn]) more rfl
          refine ⟨_, rest, .step (i := .gap _ hc) trivial h, ha.cons ?_, hrest⟩
          intro hp
          simpa [Item.isStray] using fun ho => hr ⟨hp, ho⟩
      | @lexeme l more ends =>
        obtain ⟨d, u, hl⟩ := l.exists_cons
        have hlt : more.length < n := by
          rw [← hn, hl, List.length_append, List.length_cons]
          omega
        obtain ⟨items, rest, h, ha, hrest⟩ := ih _ hlt more rfl
        exact ⟨_, rest, .step (i := .lexeme l) ends h, ha.cons (fun _ => rfl), hrest⟩
      | fault h =>
        exact ⟨[], _, .done _, by simp [Policy.Admits], .inr ⟨_, _, _, .fault h, rfl⟩⟩

namespace LineScan

theorem rejectStray_found {items : List Item} (strip : Bool) (p : Position)
    (h : ∀ i ∈ items, i.isStray = false) (failure : Option LexError) (more : List ScanItem) :
    rejectStray failure (itemsFound strip p items ++ more) =
      ⟨itemsFound strip p items ++ (rejectStray failure more).items,
        (rejectStray failure more).failure⟩ := by
  induction items generalizing p with
  | nil => rfl
  | cons i items ih =>
    have hi := h i (by simp)
    have hh := ih (p.after i.text) (fun j hj => h j (List.mem_cons_of_mem _ hj))
    cases i with
    | lexeme l => simp [itemsFound, Item.found, rejectStray, hh, cons]
    | gap c hc =>
      have ho : CharClass.of c ≠ .other := by simpa [Item.isStray] using hi
      simpa [itemsFound, Item.found, ho] using hh

theorem under_of_ne_reject (s : LineScan) {policy : Policy} (h : policy ≠ .reject) :
    s.under policy = s := by
  cases policy <;> simp_all [under]

theorem under_of_reads {policy : Policy} {s rest : List Char} {items : List Item}
    (h : Reads s items rest) (ha : policy.Admits items) (strip : Bool) (p : Position) :
    (ofChars strip p s).under policy =
      ⟨itemsFound strip p items ++
          ((ofChars strip (p.after (itemsText items)) rest).under policy).items,
        ((ofChars strip (p.after (itemsText items)) rest).under policy).failure⟩ := by
  by_cases hp : policy = .reject
  · rw [ofChars_of_reads h]
    subst hp
    exact rejectStray_found strip p (ha rfl) _ _
  · rw [under_of_ne_reject _ hp, under_of_ne_reject _ hp]
    exact ofChars_of_reads h strip p

theorem under_halt {policy : Policy} {kind : LexErrorKind} {text rest : List Char}
    (h : Halt policy kind text rest) (strip : Bool) (p : Position) :
    (ofChars strip p (text ++ rest)).under policy = ⟨[], some ⟨kind, p, String.ofList text⟩⟩ := by
  cases h with
  | fault h =>
    rw [ofChars_fault strip p h]
    cases policy <;> rfl
  | stray reject other rest =>
    subst reject
    rw [List.singleton_append, ofChars_gap strip p (.inr other), if_pos other]
    simp [under, cons, rejectStray, LexError.unrecognized]

theorem under_eq_of_reads {policy : Policy} {s : List Char} {items : List Item}
    (h : Reads s items []) (ha : policy.Admits items) (strip : Bool) (p : Position) :
    (ofChars strip p s).under policy = ⟨itemsFound strip p items, none⟩ := by
  have hnil : (ofChars strip (p.after (itemsText items)) []).under policy = ⟨[], none⟩ := by
    rw [ofChars]
    cases policy <;> rfl
  rw [under_of_reads h ha, hnil, List.append_nil]

theorem under_eq_of_halt {policy : Policy} {kind : LexErrorKind} {s text rest : List Char}
    {items : List Item} (h : Reads s items (text ++ rest)) (ha : policy.Admits items)
    (hh : Halt policy kind text rest) (strip : Bool) (p : Position) :
    (ofChars strip p s).under policy =
      ⟨itemsFound strip p items,
        some ⟨kind, p.after (itemsText items), String.ofList text⟩⟩ := by
  rw [under_of_reads h ha, under_halt hh, List.append_nil]

theorem reads_of_success {strip : Bool} {p : Position} {policy : Policy} {s : List Char}
    (h : ((ofChars strip p s).under policy).failure = none) :
    ∃ items, Reads s items [] ∧ policy.Admits items := by
  obtain ⟨items, rest, hr, ha, rfl | ⟨kind, text, more, hh, rfl⟩⟩ := exists_reads policy s
  · exact ⟨items, hr, ha⟩
  · rw [under_eq_of_halt hr ha hh] at h
    simp at h

theorem reads_of_failure {strip : Bool} {p : Position} {policy : Policy} {s : List Char}
    {e : LexError} (h : ((ofChars strip p s).under policy).failure = some e) :
    ∃ items kind text rest, Reads s items (text ++ rest) ∧ policy.Admits items ∧
      Halt policy kind text rest ∧
      e = ⟨kind, p.after (itemsText items), String.ofList text⟩ := by
  obtain ⟨items, rest, hr, ha, rfl | ⟨kind, text, more, hh, rfl⟩⟩ := exists_reads policy s
  · rw [under_eq_of_reads hr ha] at h
    simp at h
  · rw [under_eq_of_halt hr ha hh] at h
    exact ⟨items, kind, text, more, hr, ha, hh, (Option.some.inj h).symm⟩

theorem exists_lexeme_of_mem {strip : Bool} {p : Position} {policy : Policy} {s : List Char}
    {t : Token} (h : t ∈ ((ofChars strip p s).under policy).tokens) :
    ∃ l : Lexeme, t.value = l.value strip ∧ l.text ⊆ s := by
  -- the line may fail behind the token, so its items need not reach its end
  have hitems : ∃ items rest, s = itemsText items ++ rest ∧
      ((ofChars strip p s).under policy).tokens = itemsTokens strip p items := by
    obtain ⟨items, rest, hr, ha, rfl | ⟨kind, text, more, hh, rfl⟩⟩ := exists_reads policy s
    · exact ⟨items, [], hr.eq_append, by rw [under_eq_of_reads hr ha, tokens_found]⟩
    · exact ⟨items, _, hr.eq_append, by rw [under_eq_of_halt hr ha hh, tokens_found]⟩
  obtain ⟨items, rest, rfl, htokens⟩ := hitems
  rw [htokens] at h
  obtain ⟨l, hl, hvalue⟩ := exists_of_mem_itemsTokens h
  refine ⟨l, hvalue, fun c hc => List.mem_append_left _ ?_⟩
  exact List.mem_flatMap.mpr ⟨_, hl, hc⟩

end LineScan

end LineLexer
