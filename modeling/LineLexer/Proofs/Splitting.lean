import LineLexer.Proofs.Decoding

/-! Cutting a text into lines loses nothing. The lines stand in the text where their offsets say,
with one line end between two of them, so the text is known from its lines and its length. -/

namespace LineLexer

/-- The characters stand in the text from this byte on. -/
def StandsAt (text : String) (offset : Nat) (s : List Char) : Prop :=
  (Utf8.encode text).extract offset (offset + byteLength s) = s.utf8Encode

/-- The byte behind the last one of the line. -/
def Line.stop (l : Line) : Nat := l.offset + byteLength l.text

/-- The source holds the whole text but for the line ends. -/
structure Splits (text : String) (source : Source) : Prop where
  lineCount : source.lineCount = text.toList.count '\n' + 1
  feed_not_mem : ∀ l ∈ source.lines, '\n' ∉ l.text
  standsAt : ∀ l ∈ source.lines, StandsAt text l.offset l.text
  first : ∀ l ∈ source.lines.head?, l.offset = 0
  between : ∀ i l next, source.lines[i]? = some l → source.lines[i + 1]? = some next →
    (next.offset = l.stop + 1 ∧ StandsAt text l.stop ['\n'] ∨
      next.offset = l.stop + 2 ∧ StandsAt text l.stop ['\r', '\n']) ∧
    (next.offset = l.stop + 2 ↔ StandsAt text l.stop ['\r', '\n'])
  last : ∀ l ∈ source.lines.getLast?, l.stop = text.utf8ByteSize ∨
    l.stop + 1 = text.utf8ByteSize ∧ StandsAt text l.stop ['\r']

theorem standsAt_of_append {text : String} {a w b : List Char} (h : text.toList = a ++ w ++ b) :
    StandsAt text (byteLength a) w := by
  rw [StandsAt, encode_eq, h, extract_utf8Encode]

theorem StandsAt.left {text : String} {offset : Nat} {s t : List Char}
    (h : StandsAt text offset (s ++ t)) : StandsAt text offset s := by
  rw [StandsAt, byteLength_append, List.utf8Encode_append] at h
  have hs := congrArg (·.extract 0 (byteLength s)) h
  rw [ByteArray.extract_extract, ByteArray.extract_append_eq_left (size_utf8Encode s).symm] at hs
  rw [StandsAt, ← hs]
  congr 1
  omega

theorem eq_of_utf8Encode_eq {s t : List Char} (h : s.utf8Encode = t.utf8Encode) : s = t := by
  apply String.ofList_injective
  apply Utf8.encode_injective
  rw [encode_eq, encode_eq, String.toList_ofList, String.toList_ofList, h]

theorem not_standsAt_return {text : String} {offset : Nat} (h : StandsAt text offset ['\n']) :
    ¬ StandsAt text offset ['\r', '\n'] := by
  intro hreturn
  have hr : StandsAt text offset ['\r'] := StandsAt.left (t := ['\n']) hreturn
  have hsize : byteLength ['\r'] = byteLength ['\n'] := rfl
  rw [StandsAt, hsize, h] at hr
  exact absurd (eq_of_utf8Encode_eq hr) (by decide)

namespace Source

variable {text : String}

theorem exists_piece {i : Nat} {l : Line} (h : (ofText text).lines[i]? = some l) :
    ∃ before piece after, text.toList.splitOn '\n' = before ++ piece :: after ∧
      before.length = i ∧ l = ⟨dropReturn piece, linesLength before⟩ := by
  obtain ⟨before, piece, after, hpieces, hi, hl⟩ := layout_getElem? h
  rw [Nat.zero_add] at hl
  exact ⟨before, piece, after, hpieces, hi, hl⟩

theorem toList_of_pieces {before after : List (List Char)} {piece : List Char}
    (h : text.toList.splitOn '\n' = before ++ piece :: after) :
    text.toList = before.flatMap (· ++ ['\n']) ++ ['\n'].intercalate (piece :: after) := by
  rw [← intercalate_append_cons, ← h, List.intercalate_splitOn]

/-- What a line loses when it is cut out stands behind it, and then the text goes on. -/
theorem exists_ending {before : List (List Char)} {piece rest : List Char}
    (h : text.toList = before.flatMap (· ++ ['\n']) ++ piece ++ rest) :
    let l : Line := ⟨dropReturn piece, linesLength before⟩
    ∃ ending, (ending = [] ∨ ending = ['\r']) ∧
      linesLength before + byteLength piece = l.stop + byteLength ending ∧
      ∀ w more, rest = w ++ more → StandsAt text l.stop (ending ++ w) := by
  intro l
  obtain ⟨ending, hending, hpiece⟩ : ∃ ending, (ending = [] ∨ ending = ['\r']) ∧
      piece = dropReturn piece ++ ending := by
    rcases eq_dropReturn_or piece with hp | hp
    · exact ⟨[], .inl rfl, by rwa [List.append_nil]⟩
    · exact ⟨['\r'], .inr rfl, hp⟩
  refine ⟨ending, hending, ?_, ?_⟩
  · have hsize := congrArg byteLength hpiece
    rw [byteLength_append] at hsize
    simp only [l, Line.stop]
    omega
  · rintro w more rfl
    have htext : text.toList =
        (before.flatMap (· ++ ['\n']) ++ dropReturn piece) ++ (ending ++ w) ++ more := by
      rw [h]
      nth_rewrite 1 [hpiece]
      simp
    have hstands := standsAt_of_append htext
    rwa [byteLength_append, byteLength_flatMap_feed] at hstands

/-- Behind a line that is not the last one its line end stands, and behind that the next line. -/
theorem between_ofText {i : Nat} {l next : Line} (hl : (ofText text).lines[i]? = some l)
    (hnext : (ofText text).lines[i + 1]? = some next) :
    next.offset = l.stop + 1 ∧ StandsAt text l.stop ['\n'] ∨
      next.offset = l.stop + 2 ∧ StandsAt text l.stop ['\r', '\n'] := by
  obtain ⟨before, piece, after, hpieces, rfl, rfl⟩ := exists_piece hl
  have htext := toList_of_pieces hpieces
  rw [ofText, hpieces, layout_append, List.getElem?_append_right (by rw [length_layout]; omega),
    length_layout, Nat.add_sub_cancel_left] at hnext
  cases after with
  | nil => simp [layout] at hnext
  | cons follower after =>
    obtain rfl : _ = next := by simpa [layout] using hnext
    rw [List.intercalate_cons_cons, List.append_assoc, ← List.append_assoc] at htext
    obtain ⟨ending, rfl | rfl, hsize, hstands⟩ := exists_ending htext
    · exact .inl ⟨congrArg (· + 1) hsize, hstands ['\n'] _ rfl⟩
    · exact .inr ⟨congrArg (· + 1) hsize, hstands ['\n'] _ rfl⟩

theorem last_ofText {l : Line} (h : (ofText text).lines.getLast? = some l) :
    l.stop = text.utf8ByteSize ∨
      l.stop + 1 = text.utf8ByteSize ∧ StandsAt text l.stop ['\r'] := by
  obtain ⟨before, piece, hpieces⟩ :=
    (List.eq_nil_or_concat (text.toList.splitOn '\n')).resolve_left (List.splitOn_ne_nil _ _)
  rw [List.concat_eq_append] at hpieces
  have htext := toList_of_pieces hpieces
  rw [List.intercalate_singleton, ← List.append_nil (_ ++ piece)] at htext
  rw [ofText, hpieces, layout_append] at h
  obtain rfl : _ = l := by simpa [layout] using h
  have htotal := congrArg byteLength htext
  rw [List.append_nil, byteLength_append, byteLength_flatMap_feed, ← utf8ByteSize_eq] at htotal
  obtain ⟨ending, rfl | rfl, hsize, hstands⟩ := exists_ending htext
  · exact .inl (hsize.symm.trans htotal.symm)
  · exact .inr ⟨hsize.symm.trans htotal.symm, hstands [] [] rfl⟩

theorem splits_ofText (text : String) : Splits text (ofText text) where
  lineCount := by rw [lineCount, ofText, length_layout, length_splitOn]
  feed_not_mem := fun _ => feed_not_mem_text
  standsAt := by
    intro l hl
    obtain ⟨i, hi⟩ := List.getElem?_of_mem hl
    exact @Of.extract_encode _ text (.text text) i l hi [] l.text [] (by simp)
  first := by
    intro l hl
    rw [List.head?_eq_getElem?] at hl
    obtain ⟨before, piece, after, -, hzero, rfl⟩ := exists_piece hl
    rw [List.length_eq_zero_iff.mp hzero]
    rfl
  between := by
    intro i l next hl hnext
    have hends := between_ofText hl hnext
    refine ⟨hends, ?_⟩
    rcases hends with ⟨hoffset, hfeed⟩ | ⟨hoffset, hreturn⟩
    · have hnot := not_standsAt_return hfeed
      exact ⟨fun h => by omega, fun h => absurd h hnot⟩
    · exact ⟨fun _ => hreturn, fun _ => hoffset⟩
  last := fun _ => last_ofText

end Source

/-- The two texts begin with the same bytes, as many as told. -/
def Agree (t u : String) (count : Nat) : Prop :=
  (Utf8.encode t).extract 0 count = (Utf8.encode u).extract 0 count

namespace Agree

variable {t u : String}

theorem zero (t u : String) : Agree t u 0 := by
  simp [Agree]

theorem behind {count : Nat} {s : List Char} (h : Agree t u count) (ht : StandsAt t count s)
    (hu : StandsAt u count s) : Agree t u (count + byteLength s) := by
  have hsplit : ∀ b : ByteArray, b.extract 0 (count + byteLength s) =
      b.extract 0 count ++ b.extract count (count + byteLength s) := by
    intro b
    rw [ByteArray.extract_append_extract, Nat.zero_min, Nat.max_eq_right (by omega)]
  rw [Agree, hsplit, hsplit, h, ht, hu]

theorem eq_of_size (h : Agree t u t.utf8ByteSize) (hsize : t.utf8ByteSize = u.utf8ByteSize) :
    t = u := by
  apply Utf8.encode_injective
  have ht := @ByteArray.extract_zero_size (Utf8.encode t)
  have hu := @ByteArray.extract_zero_size (Utf8.encode u)
  rw [← ht, ← hu]
  rw [Agree] at h
  nth_rewrite 2 [hsize] at h
  exact h

end Agree

namespace Splits

variable {t u : String} {source : Source}

/-- Up to the end of each of its lines a text is known from its source. -/
theorem agree (ht : Splits t source) (hu : Splits u source) {i : Nat} {l : Line}
    (h : source.lines[i]? = some l) : Agree t u l.stop := by
  -- line by line, and on each line the line end before it and then its own text
  induction i generalizing l with
  | zero =>
    have hmem := List.mem_of_getElem? h
    have hzero := ht.first l (by rwa [List.head?_eq_getElem?])
    have hstart : Agree t u l.offset := by
      rw [hzero]
      exact .zero t u
    exact hstart.behind (ht.standsAt l hmem) (hu.standsAt l hmem)
  | succ i ih =>
    have hmem := List.mem_of_getElem? h
    obtain ⟨before, hbefore⟩ : ∃ before, source.lines[i]? = some before := by
      have hlt := (List.getElem?_eq_some_iff.mp h).1
      exact ⟨_, List.getElem?_eq_getElem (by omega)⟩
    have hstop := ih hbefore
    have hstart : Agree t u l.offset := by
      have hone : byteLength ['\n'] = 1 := rfl
      have htwo : byteLength ['\r', '\n'] = 2 := rfl
      rcases (ht.between i before l hbefore h).1 with ⟨hoffset, hfeed⟩ | ⟨hoffset, hreturn⟩
      · rcases (hu.between i before l hbefore h).1 with ⟨-, hfeed'⟩ | ⟨hoffset', -⟩
        · rw [hoffset, ← hone]
          exact hstop.behind hfeed hfeed'
        · omega
      · have hreturn' := (hu.between i before l hbefore h).2.mp hoffset
        rw [hoffset, ← htwo]
        exact hstop.behind hreturn hreturn'
    exact hstart.behind (ht.standsAt l hmem) (hu.standsAt l hmem)

/-- A text is known from its lines and its length, which tells what ends the last line. -/
theorem text_unique (ht : Splits t source) (hu : Splits u source)
    (hsize : t.utf8ByteSize = u.utf8ByteSize) : t = u := by
  obtain ⟨l, hl⟩ : ∃ l, source.lines.getLast? = some l := by
    have hcount : source.lines.length = _ := ht.lineCount
    exact ⟨_, List.getLast?_eq_some_getLast (List.ne_nil_of_length_pos (by omega))⟩
  have hstop : Agree t u l.stop := ht.agree hu (by rwa [List.getLast?_eq_getElem?] at hl)
  refine Agree.eq_of_size ?_ hsize
  have hone : byteLength ['\r'] = 1 := rfl
  rcases ht.last l hl with hend | ⟨hend, hreturn⟩
  · rwa [← hend]
  · rcases hu.last l hl with hend' | ⟨-, hreturn'⟩
    · omega
    · rw [← hend, ← hone]
      exact hstop.behind hreturn hreturn'

end Splits

/-- The lines of a text hold all of it but the line ends, and two texts of the same length with the
same lines are the same. -/
theorem lossless_ofText (t : String) :
    Splits t (.ofText t) ∧
      ∀ u : String, u.utf8ByteSize = t.utf8ByteSize → Source.ofText u = Source.ofText t → u = t := by
  refine ⟨Source.splits_ofText t, ?_⟩
  intro u hsize hsame
  have hu := Source.splits_ofText u
  rw [hsame] at hu
  exact hu.text_unique (Source.splits_ofText t) hsize

/-- A return at the end of the text is in no line, so the length is needed. -/
example : Source.ofText "a\r" = Source.ofText "a" := by decide

end LineLexer
