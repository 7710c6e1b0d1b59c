import LineLexer.Proofs.NumberText

/-! How a symbol of a JSON text is written. The reader takes a symbol off the front of a text
exactly when the text begins with one of the ways to write it. -/

namespace LineLexer

namespace Json

def lowerDigits : List Char :=
  ['0', '1', '2', '3', '4', '5', '6', '7', '8', '9', 'a', 'b', 'c', 'd', 'e', 'f']

def upperDigits : List Char :=
  ['0', '1', '2', '3', '4', '5', '6', '7', '8', '9', 'A', 'B', 'C', 'D', 'E', 'F']

/-- `c` is the hexadecimal digit of value `n`, in either case. -/
def IsHexDigit (c : Char) (n : Nat) : Prop := lowerDigits[n]? = some c ∨ upperDigits[n]? = some c

instance (c : Char) (n : Nat) : Decidable (IsHexDigit c n) :=
  inferInstanceAs (Decidable (_ ∨ _))

/-- The letters that may stand behind a backslash, each with the character it means. -/
def letters : List (Char × Char) :=
  [('"', '"'), ('\\', '\\'), ('/', '/'), ('b', '\x08'), ('f', '\x0c'), ('n', '\n'), ('r', '\r'),
    ('t', '\t')]

inductive IsPiece : Piece → List Char → Prop where
  | plain {c : Char} (control : 0x20 ≤ c.toNat) (quote : c ≠ '"') (slash : c ≠ '\\') :
      IsPiece (.char c) [c]
  | letter {e c : Char} (h : (e, c) ∈ letters) : IsPiece (.char c) ['\\', e]
  | codeUnit {a b c d : Char} {w x y z : Nat} (ha : IsHexDigit a w) (hb : IsHexDigit b x)
      (hc : IsHexDigit c y) (hd : IsHexDigit d z) :
      IsPiece (.codeUnit (((w * 16 + x) * 16 + y) * 16 + z)) ['\\', 'u', a, b, c, d]

inductive ArePieces : List Piece → List Char → Prop where
  | nil : ArePieces [] []
  | cons {p : Piece} {ps : List Piece} {s t : List Char} (hp : IsPiece p s)
      (hps : ArePieces ps t) : ArePieces (p :: ps) (s ++ t)

/-- The pieces mean this text. A character stands for itself, and it may be written as one code
unit or, beyond the first plane, as two. -/
inductive Denote : List Piece → List Char → Prop where
  | nil : Denote [] []
  | char (c : Char) {ps : List Piece} {s : List Char} (h : Denote ps s) :
      Denote (.char c :: ps) (c :: s)
  | single {c : Char} (hc : c.toNat < 0x10000) {ps : List Piece} {s : List Char}
      (h : Denote ps s) : Denote (.codeUnit c.toNat :: ps) (c :: s)
  | pair {c : Char} (hc : 0x10000 ≤ c.toNat) {ps : List Piece} {s : List Char}
      (h : Denote ps s) :
      Denote (.codeUnit (0xd800 + (c.toNat - 0x10000) / 0x400) ::
        .codeUnit (0xdc00 + (c.toNat - 0x10000) % 0x400) :: ps) (c :: s)

/-- The text of the pieces, or that they have none. -/
def Means (ps : List Piece) : Option String → Prop
  | some s => Denote ps s.toList
  | none => ∀ s, ¬ Denote ps s

inductive Symbol.IsWritten : Symbol → List Char → Prop where
  | openBrace : IsWritten .openBrace ['{']
  | closeBrace : IsWritten .closeBrace ['}']
  | openBracket : IsWritten .openBracket ['[']
  | closeBracket : IsWritten .closeBracket [']']
  | comma : IsWritten .comma [',']
  | colon : IsWritten .colon [':']
  | null : IsWritten .null ['n', 'u', 'l', 'l']
  | true : IsWritten (.bool true) ['t', 'r', 'u', 'e']
  | false : IsWritten (.bool false) ['f', 'a', 'l', 's', 'e']
  | number {s : List Char} (h : IsNumber s) : IsWritten (.number (String.ofList s)) s
  | string {ps : List Piece} {s : List Char} {text : Option String} (hs : ArePieces ps s)
      (ht : Means ps text) : IsWritten (.string text) ('"' :: s ++ ['"'])

theorem hexValue?_eq_some_iff {c : Char} {n : Nat} : hexValue? c = some n ↔ IsHexDigit c n := by
  constructor
  · intro h
    have hall : ∀ k < 103, ∀ v ∈ hexValue? (Char.ofNat k), IsHexDigit (Char.ofNat k) v := by
      decide
    have hlt : c.toNat < 103 := by
      unfold hexValue? at h
      split at h
      · next hdigit =>
        have hle : c.toNat ≤ 57 := by
          simp only [Char.isDigit, Bool.and_eq_true, decide_eq_true_eq, ge_iff_le,
            UInt32.le_iff_toNat_le] at hdigit
          exact hdigit.2
        omega
      split at h
      · next hletter =>
        have hle : c.toNat ≤ 102 := hletter.2
        omega
      split at h
      · next hletter =>
        have hle : c.toNat ≤ 70 := hletter.2
        omega
      · simp at h
    have hc := hall c.toNat hlt
    rw [Char.ofNat_toNat] at hc
    exact hc n h
  · intro h
    have hlower : ∀ k (hk : k < 16), hexValue? lowerDigits[k] = some k := by decide
    have hupper : ∀ k (hk : k < 16), hexValue? upperDigits[k] = some k := by decide
    rcases h with h | h
    · obtain ⟨hn, rfl⟩ := List.getElem?_eq_some_iff.mp h
      exact hlower n hn
    · obtain ⟨hn, rfl⟩ := List.getElem?_eq_some_iff.mp h
      exact hupper n hn

theorem lt_of_isHexDigit {c : Char} {n : Nat} (h : IsHexDigit c n) : n < 16 := by
  rcases h with h | h
  · exact (List.getElem?_eq_some_iff.mp h).1
  · exact (List.getElem?_eq_some_iff.mp h).1

theorem codeUnit?_eq_some_iff {a b c d : Char} {n : Nat} :
    codeUnit? a b c d = some n ↔ IsPiece (.codeUnit n) ['\\', 'u', a, b, c, d] := by
  constructor
  · intro h
    simp only [codeUnit?, Option.bind_eq_bind, Option.bind_eq_some_iff, hexValue?_eq_some_iff,
      Option.some.injEq] at h
    obtain ⟨w, hw, x, hx, y, hy, z, hz, rfl⟩ := h
    exact .codeUnit hw hx hy hz
  · intro h
    cases h with
    | codeUnit hw hx hy hz =>
      simp [codeUnit?, hexValue?_eq_some_iff.mpr hw, hexValue?_eq_some_iff.mpr hx,
        hexValue?_eq_some_iff.mpr hy, hexValue?_eq_some_iff.mpr hz]

theorem unescape?_eq_some_iff {e c : Char} : unescape? e = some c ↔ (e, c) ∈ letters := by
  constructor
  · intro h
    unfold unescape? at h
    split at h
    case h_9 => simp at h
    all_goals
      obtain rfl := Option.some.inj h
      simp [letters]
  · intro h
    simp only [letters, List.mem_cons, Prod.mk.injEq, List.not_mem_nil, or_false] at h
    rcases h with ⟨rfl, rfl⟩ | ⟨rfl, rfl⟩ | ⟨rfl, rfl⟩ | ⟨rfl, rfl⟩ | ⟨rfl, rfl⟩ | ⟨rfl, rfl⟩ |
      ⟨rfl, rfl⟩ | ⟨rfl, rfl⟩ <;> rfl

theorem pieces?_append {ps : List Piece} {s : List Char} (h : ArePieces ps s) (rest : List Char) :
    pieces? (s ++ '"' :: rest) = some (ps, rest) := by
  induction h with
  | nil => simp [pieces?]
  | @cons p ps s t hp hps ih =>
    rw [List.append_assoc]
    cases hp with
    | plain control quote slash =>
      rw [List.singleton_append, pieces?, if_neg (by simp [slash]; omega), ih]
      · rfl
      all_goals simp [quote, slash]
    | @letter e c hl =>
      rw [List.cons_append, List.cons_append, List.nil_append, pieces?,
        unescape?_eq_some_iff.mpr hl, ih]
      · rfl
      · rintro - - - - - rfl
        simp [letters] at hl
    | codeUnit ha hb hc hd =>
      have hunit := codeUnit?_eq_some_iff.mpr (.codeUnit ha hb hc hd)
      simp only [List.cons_append, List.nil_append, pieces?, hunit, ih]
      rfl

theorem exists_of_pieces? {s rest : List Char} {ps : List Piece}
    (h : pieces? s = some (ps, rest)) : ∃ t, s = t ++ '"' :: rest ∧ ArePieces ps t := by
  fun_induction pieces? s generalizing ps rest with
  | case1 => simp at h
  | case2 r =>
    obtain ⟨rfl, rfl⟩ := Prod.mk.inj (Option.some.inj h)
    exact ⟨[], rfl, .nil⟩
  | case3 a b c d r ih =>
    simp only [Option.bind_eq_bind, Option.bind_eq_some_iff] at h
    obtain ⟨n, hn, x, hx, h⟩ := h
    obtain ⟨rfl, rfl⟩ := Prod.mk.inj (Option.some.inj h)
    obtain ⟨t, rfl, ht⟩ := ih hx
    exact ⟨_, rfl, .cons (codeUnit?_eq_some_iff.mp hn) ht⟩
  | case4 e r _ ih =>
    simp only [Option.bind_eq_bind, Option.bind_eq_some_iff] at h
    obtain ⟨c, hc, x, hx, h⟩ := h
    obtain ⟨rfl, rfl⟩ := Prod.mk.inj (Option.some.inj h)
    obtain ⟨t, rfl, ht⟩ := ih hx
    exact ⟨_, rfl, .cons (.letter (unescape?_eq_some_iff.mp hc)) ht⟩
  | case5 => simp at h
  | case6 c r hquote _ _ hplain ih =>
    simp only [Option.bind_eq_bind, Option.bind_eq_some_iff] at h
    obtain ⟨x, hx, h⟩ := h
    obtain ⟨rfl, rfl⟩ := Prod.mk.inj (Option.some.inj h)
    obtain ⟨t, rfl, ht⟩ := ih hx
    rw [not_or] at hplain
    exact ⟨_, rfl, .cons (.plain (Nat.not_lt.mp hplain.1) hquote hplain.2) ht⟩

theorem toNat_ofNat_of_valid {n : Nat} (h : n < 0xd800 ∨ 0xdfff < n ∧ n < 0x110000) :
    (Char.ofNat n).toNat = n := by
  have hvalid : n.isValidChar := h
  rw [Char.ofNat, dif_pos hvalid]
  rfl

theorem toNat_lt (c : Char) : c.toNat < 0xd800 ∨ 0xdfff < c.toNat ∧ c.toNat < 0x110000 := c.valid

theorem isHighSurrogate_iff {n : Nat} : isHighSurrogate n = true ↔ 0xd800 ≤ n ∧ n ≤ 0xdbff := by
  simp [isHighSurrogate]

theorem isLowSurrogate_iff {n : Nat} : isLowSurrogate n = true ↔ 0xdc00 ≤ n ∧ n ≤ 0xdfff := by
  simp [isLowSurrogate]

theorem joinPieces_single {n : Nat} (h : n < 0xd800 ∨ 0xdfff < n) (ps : List Piece) :
    joinPieces (.codeUnit n :: ps) = (joinPieces ps).map (Char.ofNat n :: ·) := by
  have hhigh : isHighSurrogate n = false := by
    rw [← Bool.not_eq_true, isHighSurrogate_iff]
    omega
  have hlow : isLowSurrogate n = false := by
    rw [← Bool.not_eq_true, isLowSurrogate_iff]
    omega
  rcases ps with - | ⟨p | m, ps⟩ <;> simp [joinPieces, hhigh, hlow]

theorem joinPieces_of_denote {ps : List Piece} {s : List Char} (h : Denote ps s) :
    joinPieces ps = some s := by
  induction h with
  | nil => rfl
  | char c h ih => rw [joinPieces, ih, Option.map_some]
  | @single c hc ps s h ih =>
    have hvalid := toNat_lt c
    rw [joinPieces_single (by omega), ih, Option.map_some, Char.ofNat_toNat]
  | @pair c hc ps s h ih =>
    have hvalid := toNat_lt c
    have hhigh := isHighSurrogate_iff.mpr
      (show 0xd800 ≤ 0xd800 + (c.toNat - 0x10000) / 0x400 ∧
        0xd800 + (c.toNat - 0x10000) / 0x400 ≤ 0xdbff by omega)
    have hlow := isLowSurrogate_iff.mpr
      (show 0xdc00 ≤ 0xdc00 + (c.toNat - 0x10000) % 0x400 ∧
        0xdc00 + (c.toNat - 0x10000) % 0x400 ≤ 0xdfff by omega)
    have hsum : 0x10000 + (0xd800 + (c.toNat - 0x10000) / 0x400 - 0xd800) * 0x400 +
        (0xdc00 + (c.toNat - 0x10000) % 0x400 - 0xdc00) = c.toNat := by omega
    rw [joinPieces, if_pos hhigh, if_pos hlow, ih, Option.map_some, hsum, Char.ofNat_toNat]

theorem denote_single {n : Nat} (hn : n < 0x10000) (hhigh : ¬ isHighSurrogate n = true)
    (hlow : ¬ isLowSurrogate n = true) {ps : List Piece} {s : List Char} (h : Denote ps s) :
    Denote (.codeUnit n :: ps) (Char.ofNat n :: s) := by
  rw [isHighSurrogate_iff] at hhigh
  rw [isLowSurrogate_iff] at hlow
  have hchar : (Char.ofNat n).toNat = n := toNat_ofNat_of_valid (by omega)
  have hsingle := Denote.single (c := Char.ofNat n) (by omega) h
  rwa [hchar] at hsingle

theorem denote_of_joinPieces {ps : List Piece} {s : List Char}
    (hps : ∀ n, .codeUnit n ∈ ps → n < 0x10000) (h : joinPieces ps = some s) : Denote ps s := by
  fun_induction joinPieces ps generalizing s with
  | case1 =>
    obtain rfl := Option.some.inj h
    exact .nil
  | case2 c ps ih =>
    obtain ⟨t, ht, rfl⟩ := Option.map_eq_some_iff.mp h
    exact .char c (ih (fun n hn => hps n (List.mem_cons_of_mem _ hn)) ht)
  | case3 n m ps hhigh hlow ih =>
    obtain ⟨t, ht, rfl⟩ := Option.map_eq_some_iff.mp h
    have hrest := ih (fun k hk => hps k (List.mem_cons_of_mem _ (List.mem_cons_of_mem _ hk))) ht
    rw [isHighSurrogate_iff] at hhigh
    rw [isLowSurrogate_iff] at hlow
    have hchar := toNat_ofNat_of_valid
      (show 0x10000 + (n - 0xd800) * 0x400 + (m - 0xdc00) < 0xd800 ∨ _ from
        .inr ⟨by omega, by omega⟩)
    have hpair := Denote.pair (by omega) hrest
      (c := Char.ofNat (0x10000 + (n - 0xd800) * 0x400 + (m - 0xdc00)))
    rwa [hchar, show 0xd800 + (0x10000 + (n - 0xd800) * 0x400 + (m - 0xdc00) - 0x10000) / 0x400 = n
      by omega, show 0xdc00 + (0x10000 + (n - 0xd800) * 0x400 + (m - 0xdc00) - 0x10000) % 0x400 = m
      by omega] at hpair
  | case4 => simp at h
  | case5 => simp at h
  | case6 n m ps hhigh hlow ih =>
    obtain ⟨t, ht, rfl⟩ := Option.map_eq_some_iff.mp h
    have hrest := ih (fun k hk => hps k (List.mem_cons_of_mem _ hk)) ht
    exact denote_single (hps n (by simp)) hhigh hlow hrest
  | case7 => simp at h
  | case8 n ps _ hsurrogate ih =>
    obtain ⟨t, ht, rfl⟩ := Option.map_eq_some_iff.mp h
    have hrest := ih (fun k hk => hps k (List.mem_cons_of_mem _ hk)) ht
    rw [Bool.or_eq_true, not_or] at hsurrogate
    exact denote_single (hps n (by simp)) hsurrogate.1 hsurrogate.2 hrest

theorem codeUnit_lt {ps : List Piece} {s : List Char} (h : ArePieces ps s) :
    ∀ n, .codeUnit n ∈ ps → n < 0x10000 := by
  induction h with
  | nil => simp
  | cons hp hps ih =>
    intro n hn
    rcases List.mem_cons.mp hn with rfl | hn
    · cases hp with
      | codeUnit ha hb hc hd =>
        have hw := lt_of_isHexDigit ha
        have hx := lt_of_isHexDigit hb
        have hy := lt_of_isHexDigit hc
        have hz := lt_of_isHexDigit hd
        omega
    · exact ih n hn

theorem means_iff {ps : List Piece} {s : List Char} (h : ArePieces ps s) {text : Option String} :
    Means ps text ↔ text = (joinPieces ps).map String.ofList := by
  have hjoin : ∀ t, Denote ps t ↔ joinPieces ps = some t :=
    fun t => ⟨joinPieces_of_denote, denote_of_joinPieces (codeUnit_lt h)⟩
  cases text with
  | none =>
    simp only [Means, hjoin]
    rw [eq_comm, Option.map_eq_none_iff, Option.eq_none_iff_forall_ne_some]
  | some t =>
    simp only [Means, hjoin, eq_comm (a := some t), Option.map_eq_some_iff]
    constructor
    · exact fun ht => ⟨t.toList, ht, String.ofList_toList⟩
    · rintro ⟨u, hu, rfl⟩
      rwa [String.toList_ofList]

theorem word?_eq_some_iff {word s rest : List Char} :
    word? word s = some rest ↔ s = word ++ rest := by
  fun_induction word? word s with
  | case1 s => simp
  | case2 c word s ih => simpa using ih
  | case3 c word d s hne => simp [Ne.symm hne]
  | case4 => simp

namespace Symbol

/-- A symbol is read off the front of what goes on with it. Only a number could go on itself. -/
theorem first?_of_isWritten {x : Symbol} {s rest : List Char} (h : x.IsWritten s)
    (hr : ∀ lexeme, x = .number lexeme → EndsNumber rest) :
    ∃ c t, s = c :: t ∧ isJsonBlank c = false ∧ first? c (t ++ rest) = some (x, rest) := by
  cases h with
  | number h =>
    have hread := number?_append h (hr _ rfl)
    obtain ⟨c, t, rfl, hc⟩ := h.exists_cons
    have hother : ∀ d, d ≠ '-' → d.isDigit = false → c ≠ d := by
      rintro d hd hdigit rfl
      rcases hc with hc | hc
      · exact hd hc
      · simp [hdigit] at hc
    refine ⟨c, t, rfl, by simp [isJsonBlank, hother], ?_⟩
    rw [List.cons_append] at hread
    rw [first?, hread, Option.map_some]
    all_goals exact hother _ (by decide) (by decide)
  | @string ps s text hs ht =>
    refine ⟨'"', s ++ ['"'], rfl, rfl, ?_⟩
    rw [List.append_assoc, List.singleton_append, first?, pieces?_append hs,
      (means_iff hs).mp ht, Option.map_some]
  | _ => exact ⟨_, _, rfl, rfl, rfl⟩

theorem isWritten_of_first? {x : Symbol} {c : Char} {s rest : List Char}
    (h : first? c s = some (x, rest)) : ∃ t, c :: s = t ++ rest ∧ x.IsWritten t := by
  unfold first? at h
  split at h
  case h_7 | h_8 | h_9 =>
    obtain ⟨r, hr, h⟩ := Option.map_eq_some_iff.mp h
    obtain ⟨rfl, rfl⟩ := Prod.mk.inj h
    rw [word?_eq_some_iff.mp hr]
    exact ⟨_, rfl, by constructor⟩
  case h_10 =>
    obtain ⟨y, hy, h⟩ := Option.map_eq_some_iff.mp h
    obtain ⟨rfl, rfl⟩ := Prod.mk.inj h
    obtain ⟨t, rfl, ht⟩ := exists_of_pieces? hy
    exact ⟨'"' :: t ++ ['"'], by simp, .string ht ((means_iff ht).mpr rfl)⟩
  case h_11 =>
    obtain ⟨y, hy, h⟩ := Option.map_eq_some_iff.mp h
    obtain ⟨rfl, rfl⟩ := Prod.mk.inj h
    obtain ⟨hs, hnumber⟩ := isNumber_of_number? hy
    exact ⟨y.1, hs, .number hnumber⟩
  all_goals
    obtain ⟨rfl, rfl⟩ := Prod.mk.inj (Option.some.inj h)
    exact ⟨_, List.singleton_append.symm, by constructor⟩

end Symbol

end Json

end LineLexer
