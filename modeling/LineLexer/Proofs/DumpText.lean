import LineLexer.Dump
import LineLexer.Proofs.Concatenation
import LineLexer.Proofs.Halt
import LineLexer.Proofs.NumberText
import Mathlib.Tactic.SplitIfs

/-! The dump as text. Nothing in it is escaped, but a display ends where its own form says: a string
at the quote it began with, anything else before the next comma. So as long as strings keep their
quotes, the lines of a dump and the displays on a line can be told apart. -/

namespace LineLexer

/-- Free of the characters that part the displays and the lines of a dump. -/
def Clear (s : List Char) : Prop := ∀ c ∈ s, c ≠ ',' ∧ c ≠ '\n'

theorem clear_append {s t : List Char} : Clear (s ++ t) ↔ Clear s ∧ Clear t :=
  List.forall_mem_append

theorem clear_of_isDigit {c : Char} (h : c.isDigit = true) : c ≠ ',' ∧ c ≠ '\n' := by
  constructor <;>
  · rintro rfl
    exact absurd h (by decide)

/-- What a scan that keeps quotes can display. No kind but the string has a name that begins with
its letter. -/
inductive Shown : List Char → Prop where
  | bare {d : List Char} (ne_nil : d ≠ []) (head : d.head? ≠ some 'S') (clear : Clear d) : Shown d
  | quoted {mark : Char} {body : List Char} (quote : isQuote mark = true) (closed : mark ∉ body)
      (feed : '\n' ∉ body) : Shown (TokenKind.str.name.toList ++ ':' :: (mark :: body ++ [mark]))

/-- Displays behind another one, each with a comma and a blank before it. -/
def behindText (row : List (List Char)) : List Char := row.flatMap ([',', ' '] ++ ·)

/-- Two texts that agree as a whole agree in the part before the first character out of a class. -/
theorem append_inj_of_head {p : Char → Bool} {s t x y : List Char} (hs : ∀ c ∈ s, p c = true)
    (ht : ∀ c ∈ t, p c = true) (hx : ∀ c ∈ x.head?, p c = false)
    (hy : ∀ c ∈ y.head?, p c = false) (h : s ++ x = t ++ y) : s = t ∧ x = y := by
  have hleft := takeWhile_append_of_head hs hx
  have hright := takeWhile_append_of_head ht hy
  rw [h] at hleft
  exact ⟨hleft.1.symm.trans hright.1, hleft.2.symm.trans hright.2⟩

theorem append_cons_inj_of_not_mem {c : Char} {s t x y : List Char} (hs : c ∉ s) (ht : c ∉ t)
    (h : s ++ c :: x = t ++ c :: y) : s = t ∧ x = y := by
  have hne : ∀ u : List Char, c ∉ u → ∀ d ∈ u, (d != c) = true :=
    fun u hu d hd => by simpa using fun he : d = c => hu (he ▸ hd)
  obtain ⟨hst, hxy⟩ := append_inj_of_head (hne s hs) (hne t ht) (by simp) (by simp) h
  exact ⟨hst, (List.cons.inj hxy).2⟩

namespace Shown

variable {d e x y : List Char}

theorem ne_nil (h : Shown d) : d ≠ [] := by
  cases h with
  | bare ne_nil => exact ne_nil
  | quoted => simp

theorem feed_not_mem (h : Shown d) : '\n' ∉ d := by
  cases h with
  | bare ne_nil head clear => exact fun hm => (clear _ hm).2 rfl
  | @quoted mark body quote closed feed =>
    have hmark : '\n' ≠ mark := by
      rintro rfl
      exact absurd quote (by decide)
    simp [TokenKind.name, hmark, feed]

theorem append_ne_quoted {mark : Char} {body : List Char} (hne : d ≠ [])
    (hhead : d.head? ≠ some 'S') :
    d ++ x ≠ TokenKind.str.name.toList ++ ':' :: (mark :: body ++ [mark]) ++ y := by
  obtain ⟨c, d, rfl⟩ := List.exists_cons_of_ne_nil hne
  exact fun h => hhead (congrArg List.head? h)

/-- Where a display ends is seen on the display itself. -/
theorem append_inj (hd : Shown d) (he : Shown e) (hx : ∀ c ∈ x.head?, c = ',')
    (hy : ∀ c ∈ y.head?, c = ',') (h : d ++ x = e ++ y) : d = e ∧ x = y := by
  cases hd with
  | bare hne hhead hclear =>
    cases he with
    | bare hne' hhead' hclear' =>
      exact append_inj_of_head (p := (· != ',')) (by simpa using fun c hc => (hclear c hc).1)
        (by simpa using fun c hc => (hclear' c hc).1) (by simpa using hx) (by simpa using hy) h
    | quoted => exact absurd h (append_ne_quoted hne hhead)
  | @quoted mark body quote closed feed =>
    cases he with
    | bare hne hhead => exact absurd h.symm (append_ne_quoted hne hhead)
    | @quoted mark' body' quote' closed' feed' =>
      simp only [List.append_assoc, List.append_cancel_left_eq, List.cons_append,
        List.nil_append, List.cons.injEq, true_and] at h
      obtain ⟨rfl, h⟩ := h
      obtain ⟨rfl, rfl⟩ := append_cons_inj_of_not_mem closed closed' h
      exact ⟨rfl, rfl⟩

end Shown

theorem head?_behindText (row : List (List Char)) : ∀ c ∈ (behindText row).head?, c = ',' := by
  cases row <;> simp [behindText]

theorem behindText_inj {a b : List (List Char)} (ha : ∀ d ∈ a, Shown d) (hb : ∀ d ∈ b, Shown d)
    (h : behindText a = behindText b) : a = b := by
  induction a generalizing b with
  | nil =>
    cases b with
    | nil => rfl
    | cons e b => simp [behindText] at h
  | cons d a ih =>
    cases b with
    | nil => simp [behindText] at h
    | cons e b =>
      have hrest : d ++ behindText a = e ++ behindText b := by simpa [behindText] using h
      rw [List.forall_mem_cons] at ha hb
      obtain ⟨rfl, htail⟩ :=
        ha.1.append_inj hb.1 (head?_behindText a) (head?_behindText b) hrest
      rw [ih ha.2 hb.2 htail]

theorem intercalate_cons_eq_behindText (d : List Char) (row : List (List Char)) :
    [',', ' '].intercalate (d :: row) = d ++ behindText row := by
  induction row generalizing d with
  | nil => simp [behindText]
  | cons e row ih =>
    rw [List.intercalate_cons_cons, ih]
    simp [behindText]

theorem intercalate_inj {a b : List (List Char)} (ha : ∀ d ∈ a, Shown d) (hb : ∀ d ∈ b, Shown d)
    (h : [',', ' '].intercalate a = [',', ' '].intercalate b) : a = b := by
  cases a with
  | nil =>
    cases b with
    | nil => rfl
    | cons e b =>
      rw [intercalate_cons_eq_behindText] at h
      exact absurd h.symm (by simp [(hb e (by simp)).ne_nil])
  | cons d a =>
    cases b with
    | nil =>
      rw [intercalate_cons_eq_behindText] at h
      exact absurd h (by simp [(ha d (by simp)).ne_nil])
    | cons e b =>
      -- with a comma before it the first display is like the others
      refine behindText_inj ha hb ?_
      rw [intercalate_cons_eq_behindText, intercalate_cons_eq_behindText] at h
      simpa [behindText] using h

theorem feed_not_mem_intercalate {row : List (List Char)} (h : ∀ d ∈ row, Shown d) :
    '\n' ∉ [',', ' '].intercalate row := by
  cases row with
  | nil => simp
  | cons d row =>
    rw [List.forall_mem_cons] at h
    rw [intercalate_cons_eq_behindText, List.mem_append, not_or]
    refine ⟨h.1.feed_not_mem, ?_⟩
    simpa [behindText] using fun d hd => (h.2 d hd).feed_not_mem

theorem Decimal.mem_plain {d : Decimal} {c : Char} (h : c ∈ d.plain.toList) :
    c.isDigit = true ∨ c = '.' := by
  have hdigits : ∀ c ∈ Nat.toDigits 10 d.digits, c.isDigit = true :=
    (DigitRun.ofNat d.digits).isDigit
  have hzeros : ∀ count, ∀ c ∈ List.replicate count '0', c.isDigit = true :=
    fun _ => isDigit_of_mem_zeros
  simp only [plain] at h
  split at h
  · rw [String.toList_ofList, List.mem_append] at h
    exact .inl (h.elim (hdigits c) (hzeros _ c))
  · split at h
    · rw [String.toList_ofList, List.mem_append, List.mem_cons] at h
      rcases h with h | h | h
      · exact .inl (hdigits c (List.mem_of_mem_take h))
      · exact .inr h
      · exact .inl (hdigits c (List.mem_of_mem_drop h))
    · rw [String.toList_ofList, List.mem_append, List.mem_cons, List.mem_cons] at h
      rcases h with (rfl | h | h) | h
      · exact .inl rfl
      · exact .inr h
      · exact .inl (hzeros _ c h)
      · exact .inl (hdigits c h)

theorem Binary64.clear_plain (x : Binary64) : Clear x.plain.toList := by
  have hsign : Clear x.sign.toList := by
    rw [sign]
    split <;> simp [Clear]
  rw [plain]
  split_ifs
  · simp [Clear]
  · rw [String.toList_append, clear_append]
    exact ⟨hsign, by simp [Clear]⟩
  · rw [String.toList_append, clear_append]
    exact ⟨hsign, by simp [Clear]⟩
  · rw [String.toList_append, clear_append]
    refine ⟨hsign, fun c hc => ?_⟩
    rcases Decimal.mem_plain hc with hdigit | rfl
    · exact clear_of_isDigit hdigit
    · decide

theorem TokenKind.clear_name {kind : TokenKind} (h : kind ≠ .str) :
    kind.name.toList ≠ [] ∧ kind.name.toList.head? ≠ some 'S' ∧ Clear kind.name.toList := by
  cases kind with
  | str => exact absurd rfl h
  | int | float | ident => simp [name, Clear]
  | operator op => cases op <;> simp [name, Clear]

theorem Token.toList_display {t : Token} {s : String} (h : t.value.literal? = some s) :
    t.display.toList = t.kind.name.toList ++ ':' :: s.toList := by
  simp [display, h]

theorem Shown.of_literal {t : Token} {s : String} (h : t.value.literal? = some s)
    (hkind : t.kind ≠ .str) (hs : Clear s.toList) : Shown t.display.toList := by
  obtain ⟨hne, hhead, hname⟩ := TokenKind.clear_name hkind
  rw [Token.toList_display h]
  refine .bare (by simp) ?_ (clear_append.mpr ⟨hname, ?_⟩)
  · rwa [List.head?_append_of_ne_nil _ hne]
  · exact List.forall_mem_cons.mpr ⟨by decide, hs⟩

/-- A lexeme of one line that keeps its quotes is displayed so that its end can be seen. -/
theorem Lexeme.shown_display {l : Lexeme} (h : '\n' ∉ l.text) (span : Span) :
    Shown (Token.display ⟨l.value false, span⟩).toList := by
  cases l with
  | int run fits =>
    have hkind : Token.kind ⟨Lexeme.value false (.int run fits), span⟩ ≠ .str := nofun
    refine Shown.of_literal (s := (digitsValue run.chars).repr) rfl hkind ?_
    intro c hc
    rw [Nat.toList_repr] at hc
    exact clear_of_isDigit ((DigitRun.ofNat _).isDigit c hc)
  | float whole fraction digits =>
    have hkind : Token.kind ⟨Lexeme.value false (.float whole fraction digits), span⟩ ≠ .str :=
      nofun
    exact Shown.of_literal (s := Binary64.plain _) rfl hkind (Binary64.clear_plain _)
  | str mark body quote closed =>
    have hfeed : '\n' ∉ body := fun hm => h (by simp [text, hm])
    have hdisplay := Shown.quoted quote closed hfeed
    rw [Token.toList_display (s := String.ofList (mark :: body ++ [mark])) rfl,
      String.toList_ofList]
    exact hdisplay
  | operator op =>
    obtain ⟨hne, hhead, hname⟩ := @TokenKind.clear_name (.operator op) (by simp)
    exact .bare hne hhead hname

namespace TokenTable

/-- The lines of a dump, numbered from `index` on. -/
def dumpedRows (index : Nat) (rows : List (List (List Char))) : List Char :=
  (rows.zipIdx index).flatMap fun row =>
    row.2.repr.toList ++ [':', ' ', '['] ++ [',', ' '].intercalate row.1 ++ [']', '\n']

theorem toList_textDump (t : TokenTable) :
    t.textDump.toList = dumpedRows 0 (t.display.map (·.map String.toList)) := by
  rw [textDump, dumpedRows, String.toList_join, List.zipIdx_map, List.flatMap_map,
    List.flatMap_map]
  refine List.flatMap_congr fun row _ => ?_
  simp only [String.toList_append, String.toList_intercalate, List.append_assoc]
  rfl

variable {a b rows : List (List (List Char))}

theorem dumpedRows_cons (index : Nat) (row : List (List Char)) :
    dumpedRows index (row :: rows) =
      (index.repr.toList ++ [':', ' ', '[']) ++
        ([',', ' '].intercalate row ++ [']'] ++ '\n' :: dumpedRows (index + 1) rows) := by
  simp [dumpedRows]

theorem count_dumpedRows (h : ∀ row ∈ rows, ∀ d ∈ row, Shown d) (index : Nat) :
    (dumpedRows index rows).count '\n' = rows.length := by
  induction rows generalizing index with
  | nil => rfl
  | cons row rows ih =>
    rw [List.forall_mem_cons] at h
    have hindex : (Nat.toDigits 10 index).count '\n' = 0 :=
      List.count_eq_zero.mpr (feed_not_mem_toDigits index)
    have hrow : ([',', ' '].intercalate row).count '\n' = 0 :=
      List.count_eq_zero.mpr (feed_not_mem_intercalate h.1)
    simp [dumpedRows_cons, hindex, hrow, ih h.2]

theorem dumpedRows_inj (ha : ∀ row ∈ a, ∀ d ∈ row, Shown d) (hb : ∀ row ∈ b, ∀ d ∈ row, Shown d)
    {index : Nat} (h : dumpedRows index a = dumpedRows index b) : a = b := by
  induction a generalizing b index with
  | nil =>
    cases b with
    | nil => rfl
    | cons row b => simp [dumpedRows] at h
  | cons row a ih =>
    cases b with
    | nil => simp [dumpedRows] at h
    | cons row' b =>
      rw [List.forall_mem_cons] at ha hb
      rw [dumpedRows_cons, dumpedRows_cons, List.append_cancel_left_eq] at h
      have hline : ∀ {row : List (List Char)}, (∀ d ∈ row, Shown d) →
          '\n' ∉ [',', ' '].intercalate row ++ [']'] := by
        intro row hrow
        simpa using feed_not_mem_intercalate hrow
      obtain ⟨hrow, hrest⟩ := append_cons_inj_of_not_mem (hline ha.1) (hline hb.1) h
      rw [intercalate_inj ha.1 hb.1 (List.append_cancel_right hrow), ih ha.2 hb.2 hrest]

end TokenTable

section tokenize

variable {policy : Policy} {text : String} {t : Tokenized}

theorem shown_display_of_tokenize (h : tokenize ⟨policy, false⟩ text = .ok t) :
    ∀ row ∈ t.table.display.map (·.map String.toList), ∀ d ∈ row, Shown d := by
  obtain ⟨-, rfl⟩ := eq_of_tokenize h
  simp only [TokenTable.ofRows, List.map_map, List.mem_map, Function.comp_apply]
  rintro row ⟨found, hfound, rfl⟩ d hd
  obtain ⟨⟨value, span⟩, htoken, rfl⟩ := List.mem_map.mp hd
  obtain ⟨index, line, hline, rfl⟩ := Scan.exists_of_mem_ofLines hfound
  obtain ⟨l, rfl, htext⟩ := LineScan.exists_lexeme_of_mem htoken
  exact l.shown_display (fun hm => Source.feed_not_mem_text hline (htext hm)) span

theorem length_display_of_tokenize {settings : LexerSettings}
    (h : tokenize settings text = .ok t) :
    t.table.display.length = text.toList.count '\n' + 1 := by
  obtain ⟨hsuccess, rfl⟩ := eq_of_tokenize h
  rw [TokenTable.ofRows, List.length_map, List.length_map,
    Scan.length_ofLines_of_success hsuccess, Source.ofText, Source.length_layout, length_splitOn]

end tokenize

/-- A text dump has a line for each line of the text, and while strings keep their quotes it tells
the displays apart: no string can pass for other tokens. -/
theorem textDump_inj {p q : Policy} {a b : String} {t u : Tokenized}
    (ha : tokenize ⟨p, false⟩ a = .ok t) (hb : tokenize ⟨q, false⟩ b = .ok u) :
    t.table.textDump.toList.count '\n' = a.toList.count '\n' + 1 ∧
      (t.table.textDump = u.table.textDump → t.table.display = u.table.display) := by
  have hshown := shown_display_of_tokenize ha
  constructor
  · rw [TokenTable.toList_textDump, TokenTable.count_dumpedRows hshown, List.length_map,
      length_display_of_tokenize ha]
  · intro h
    have hrows := congrArg String.toList h
    rw [TokenTable.toList_textDump, TokenTable.toList_textDump] at hrows
    have hequal := TokenTable.dumpedRows_inj hshown (shown_display_of_tokenize hb) hrows
    have htexts : Function.Injective String.toList := fun _ _ => String.toList_injective
    exact List.map_injective_iff.mpr (List.map_injective_iff.mpr htexts) hequal

theorem textDump_of_quoted_comma :
    let one : Tokenized := ⟨.ofRows [[⟨.str "'x, PLUS'", ⟨⟨1, 1, 0⟩, ⟨1, 10, 9⟩⟩⟩], []], []⟩
    let two : Tokenized := ⟨.ofRows
      [[⟨.str "'x'", ⟨⟨1, 1, 0⟩, ⟨1, 4, 3⟩⟩⟩, ⟨.operator .plus, ⟨⟨1, 4, 3⟩, ⟨1, 5, 4⟩⟩⟩], []], []⟩
    tokenize ⟨.skip, false⟩ "'x, PLUS'\n" = .ok one ∧
      tokenize ⟨.reject, false⟩ "'x'+\n" = .ok two ∧
      one.table.textDump.toList.count '\n' = 2 ∧ one.table.textDump ≠ two.table.textDump := by
  intro one two
  have ha : tokenize ⟨.skip, false⟩ "'x, PLUS'\n" = .ok one := by decide +kernel
  have hb : tokenize ⟨.reject, false⟩ "'x'+\n" = .ok two := by decide +kernel
  obtain ⟨hcount, hdisplay⟩ := textDump_inj ha hb
  exact ⟨ha, hb, hcount, fun h => absurd (hdisplay h) (by decide +kernel)⟩

/-- Without its quotes a string can pass for other tokens. -/
example :
    (tokenize ⟨.skip, true⟩ "'x, PLUS'").map (·.table.textDump) = .ok "0: [STR:x, PLUS]\n" ∧
      (tokenize ⟨.skip, true⟩ "'x'+").map (·.table.textDump) = .ok "0: [STR:x, PLUS]\n" := by
  decide +kernel

end LineLexer
