import LineLexer.Proofs.Decoding
import LineLexer.Run
import Mathlib.Tactic.SplitIfs

/-! What a log does to a disk. It makes one file or lets one file grow, and every path that does
not lead to that file leads where it led before. -/

namespace LineLexer

/-- An entry without what it holds. -/
def Entry.bare : Entry → Entry
  | file f => .file { f with content := ByteArray.empty }
  | e => e

namespace Disk

section reading

variable {d e : Disk} {path : String}

theorem isFile_iff : d.isFile path = true ↔ ∃ f, d.find path = .ok (.file f) := by
  rw [isFile]
  split
  · next f hfind => simp [hfind]
  · next hnot =>
    simp only [Bool.false_eq_true, false_iff, not_exists]
    exact hnot

/-- A path that names no regular file, for whatever reason, is not found. -/
theorem readSource_of_not_file (h : ∀ f, d.find path ≠ .ok (.file f)) :
    readSource d.reader path = .error (.fileNotFound path) := by
  have hfile : ¬ d.reader.isFile path = true := by
    intro hfile
    obtain ⟨f, hf⟩ := isFile_iff.mp hfile
    exact h f hf
  rw [readSource, if_neg hfile]

theorem readSource_of_file {f : File} (h : d.find path = .ok (.file f)) :
    readSource d.reader path =
      match f.read with
      | .error e => .error (.ofFileError (e.toFileError path))
      | .ok bytes =>
        match Utf8.decode bytes with
        | .ok s => .ok s
        | .error offset => .error (.ofFileError (.invalidUtf8 path offset)) := by
  have hfile : d.reader.isFile path = true := isFile_iff.mpr ⟨f, h⟩
  have hread : d.reader.read path = f.read.mapError (·.toFileError path) := by
    simp only [reader, read, h, Entry.read]
  rw [readSource, if_pos hfile]
  cases hf : f.read with
  | error err =>
    rw [FileReader.readText, hread, hf]
    rfl
  | ok bytes =>
    rw [FileReader.readText_of_read (by rw [hread, hf]; rfl)]
    dsimp only
    cases Utf8.decode bytes <;> rfl

/-- Reading a source looks only at what the path names. -/
theorem readSource_congr (h : ∀ x, e.find path = .ok x ↔ d.find path = .ok x) :
    readSource e.reader path = readSource d.reader path := by
  by_cases hfile : ∃ f, d.find path = .ok (.file f)
  · obtain ⟨f, hf⟩ := hfile
    rw [readSource_of_file hf, readSource_of_file ((h _).mpr hf)]
  · rw [not_exists] at hfile
    rw [readSource_of_not_file hfile, readSource_of_not_file fun f hf => hfile f ((h _).mp hf)]

theorem size_le_of_read {f : File} {bytes : ByteArray} (h : f.read = .ok bytes) :
    bytes.size ≤ maxSize := by
  rw [File.read] at h
  split at h
  · simp at h
  · split at h
    · simp at h
    · next hsize =>
      obtain rfl := Except.ok.inj h
      exact Nat.le_of_not_lt hsize

/-- No source is longer than a memory has room for. -/
theorem size_le_of_readSource {source : String} (h : readSource d.reader path = .ok source) :
    source.utf8ByteSize ≤ maxSize := by
  by_cases hfile : ∃ f, d.find path = .ok (.file f)
  · obtain ⟨f, hf⟩ := hfile
    rw [readSource_of_file hf] at h
    cases hread : f.read with
    | error err => simp [hread] at h
    | ok bytes =>
      cases hdecode : Utf8.decode bytes with
      | error offset => simp [hread, hdecode] at h
      | ok s =>
        simp only [hread, hdecode] at h
        obtain rfl := Except.ok.inj h
        have hbytes := size_le_of_read hread
        rwa [← Utf8.decode_eq_ok_iff.mp hdecode] at hbytes
  · rw [not_exists] at hfile
    rw [readSource_of_not_file hfile] at h
    simp at h

theorem resolve_eq_ok_iff {q : Place} :
    d.resolve path = .ok q ↔
      ∃ p, d.origin path = .ok p ∧ d.walk maxLinks p (names path) = .ok q :=
  bind_eq_ok_iff

theorem find_eq_ok_iff {x : Entry} :
    d.find path = .ok x ↔ ∃ q, d.resolve path = .ok q ∧ d.entry? q = some x := by
  rw [find, bind_eq_ok_iff]
  refine exists_congr fun q => and_congr_right fun _ => ?_
  cases d.entry? q <;> simp

end reading

section append

variable {d e : Disk} {i : Nat} {q : Place} {more : ByteArray}

theorem entry?_of_index? (h : d.index? q = some i) :
    d.entry? q = d.nodes[i]?.map Prod.snd := by
  simp only [Disk.entry?, h]

theorem index?_append (i : Nat) (more : ByteArray) (q : Place) :
    (d.append i more).index? q = d.index? q := by
  have hnames : (d.append i more).nodes.map Prod.fst = d.nodes.map Prod.fst := by
    refine List.ext_getElem? fun j => ?_
    rw [List.getElem?_map, List.getElem?_map, append, List.getElem?_modify]
    cases d.nodes[j]? with
    | none => rfl
    | some n => by_cases hj : i = j <;> simp [hj]
  have hfind : ∀ nodes : List (List Place × Entry),
      nodes.findIdx? (fun n => n.1.contains q) =
        (nodes.map Prod.fst).findIdx? fun places => places.contains q :=
    fun nodes => List.findIdx?_map.symm
  rw [index?, index?, hfind, hfind, hnames]

theorem append_append (d : Disk) (i : Nat) (more more' : ByteArray) :
    (d.append i more).append i more' = d.append i (more ++ more') := by
  have hentry : ∀ x : Entry, (x.append more).append more' = x.append (more ++ more') := by
    intro x
    cases x <;> simp [Entry.append, ByteArray.append_assoc]
  simp only [append, List.modify_modify_eq, Function.comp_def, hentry]

theorem append_empty (d : Disk) (i : Nat) : d.append i ByteArray.empty = d := by
  have hentry : ∀ x : Entry, x.append ByteArray.empty = x := by
    intro x
    cases x <;> simp [Entry.append]
  simp only [append, hentry]
  exact congrArg (Disk.mk d.workingDirectory) (List.modify_id i d.nodes)

/-- A file that grows keeps all but its content; anything else stays as it is. -/
theorem entry?_append :
    Disk.entry? (d.append i more) q =
      if d.index? q = some i then (d.entry? q).map (Entry.append more) else d.entry? q := by
  cases hq : d.index? q with
  | none => simp only [Disk.entry?, index?_append, hq, reduceCtorEq, if_false]
  | some j =>
    have hindex := (index?_append i more q).trans hq
    rw [entry?_of_index? hindex, entry?_of_index? hq, append, List.getElem?_modify]
    by_cases hj : i = j
    · subst hj
      cases d.nodes[i]? <;> simp
    · have hne : j ≠ i := Ne.symm hj
      cases d.nodes[j]? <;> simp [hj, hne]

@[simp]
theorem bare_append (more : ByteArray) (x : Entry) : (x.append more).bare = x.bare := by
  cases x <;> rfl

theorem bare_entry?_append (i : Nat) (more : ByteArray) (q : Place) :
    (Disk.entry? (d.append i more) q).map Entry.bare = (d.entry? q).map Entry.bare := by
  rw [entry?_append]
  split
  · cases d.entry? q <;> simp
  · rfl

end append

section ways

variable {d e : Disk}

/-- Where a name leads does not depend on what files hold. -/
theorem hop_congr (h : ∀ q, (e.entry? q).map Entry.bare = (d.entry? q).map Entry.bare) (p : Place)
    (name : String) : e.hop p name = d.hop p name := by
  have hp := h p
  have hnext := h (p ++ [name])
  rw [hop, hop]
  generalize e.entry? p = x, e.entry? (p ++ [name]) = x' at hp hnext ⊢
  rcases x with _ | (_ | _ | _ | _) <;> rcases hy : d.entry? p with _ | (_ | _ | _ | _) <;>
    simp [hy, Entry.bare] at hp ⊢
  obtain rfl := hp
  rcases x' with _ | (_ | _ | _ | _) <;>
    rcases hy' : d.entry? (p ++ [name]) with _ | (_ | _ | _ | _) <;>
    simp_all [Entry.bare]

theorem walkWith_congr (h : ∀ p name, e.hop p name = d.hop p name)
    (follow : Place → List String → Except DiskError Place) (p : Place) (names : List String) :
    walkWith follow e p names = walkWith follow d p names := by
  induction names generalizing p with
  | nil => rfl
  | cons name rest ih =>
    rw [walkWith, walkWith, h]
    cases d.hop p name with
    | error err => rfl
    | ok next => cases next <;> simp only [ih]

theorem walk_congr (h : ∀ p name, e.hop p name = d.hop p name) (links : Nat) :
    e.walk links = d.walk links := by
  induction links with
  | zero =>
    funext p names
    exact walkWith_congr h _ p names
  | succ links ih =>
    funext p names
    rw [walk, walk, ih]
    exact walkWith_congr h _ p names

end ways

section append

variable {d : Disk} {i : Nat} {more : ByteArray} {path : String} {q : Place}

theorem resolve_append (d : Disk) (i : Nat) (more : ByteArray) (path : String) :
    (d.append i more).resolve path = d.resolve path := by
  have hwalk := walk_congr (hop_congr (bare_entry?_append (d := d) i more)) maxLinks
  have horigin : (d.append i more).origin path = d.origin path := rfl
  rw [resolve, resolve, horigin, hwalk]

/-- A path to anything but the file that grows finds what it found before. -/
theorem find_append (apart : ∀ q, d.resolve path = .ok q → d.index? q ≠ some i) :
    (d.append i more).find path = d.find path := by
  rw [find, find, resolve_append]
  cases hq : d.resolve path with
  | error err => rfl
  | ok q =>
    simp only [bind, Except.bind]
    rw [entry?_append, if_neg (apart q hq)]

end append

section add

variable {d : Disk} {p q place : Place} {f : File} {x : Entry} {name path : String}

theorem index?_add (d : Disk) (place : Place) (x : Entry) (q : Place) :
    (d.add place x).index? q =
      (d.index? q).or (if q = place then some d.nodes.length else none) := by
  rw [index?, index?, add, List.findIdx?_append]
  by_cases hq : q = place <;> simp [hq, List.findIdx?_cons]

theorem index?_of_entry?_none (h : d.entry? q = none) : d.index? q = none ∧ q ≠ [] := by
  cases hindex : d.index? q with
  | none =>
    refine ⟨rfl, ?_⟩
    rintro rfl
    simp [Disk.entry?, hindex] at h
  | some i =>
    rw [entry?_of_index? hindex] at h
    have hlt := (List.findIdx?_eq_some_iff_getElem.mp hindex).1
    simp [List.getElem?_eq_getElem hlt] at h

/-- Something new takes no other place. -/
theorem entry?_add (h : d.entry? place = none) :
    Disk.entry? (d.add place x) q = if q = place then some x else d.entry? q := by
  have hplace := (index?_of_entry?_none h).1
  by_cases hq : q = place
  · subst hq
    have hindex : (d.add q x).index? q = some d.nodes.length := by simp [index?_add, hplace]
    rw [entry?_of_index? hindex, if_pos rfl, add]
    simp
  · have hindex : (d.add place x).index? q = d.index? q := by simp [index?_add, hq]
    rw [if_neg hq]
    cases hd : d.index? q with
    | none => simp only [Disk.entry?, hindex, hd]
    | some i =>
      have hlt := (List.findIdx?_eq_some_iff_getElem.mp hd).1
      rw [entry?_of_index? (hindex.trans hd), entry?_of_index? hd, add,
        List.getElem?_append_left hlt]

/-- A new file changes where a name leads only in that the name of the file now leads to it. -/
theorem hop_add (h : d.entry? place = none) (f : File) (p : Place) (name : String) :
    (d.add place (.file f)).hop p name = d.hop p name ∨
      (∃ limits, d.hop p name = .ok (.absent limits)) ∧
        (d.add place (.file f)).hop p name = .ok (.place place) := by
  by_cases hp : p = place
  · subst hp
    left
    rw [hop, hop, entry?_add h, if_pos rfl, h]
  · by_cases hnext : p ++ [name] = place
    · rw [hop, hop, entry?_add h, entry?_add h, if_neg hp, if_pos hnext, hnext, h]
      cases d.entry? p with
      | none => exact .inl rfl
      | some x =>
        cases x with
        | directory limits =>
          cases hsearch : limits.noSearch with
          | some err => exact .inl (by simp only [hsearch])
          | none =>
            simp only [hsearch]
            split_ifs
            · exact .inl rfl
            · exact .inl rfl
            · exact .inl rfl
            · exact .inl rfl
            · exact .inr ⟨⟨limits, rfl⟩, rfl⟩
        | _ => exact .inl rfl
    · left
      rw [hop, hop, entry?_add h, entry?_add h, if_neg hp, if_neg hnext]

theorem hop_of_file (h : d.entry? p = some (.file f)) (name : String) :
    d.hop p name = .error .notDirectory := by
  rw [hop, h]

theorem walkWith_add {follow follow' : Place → List String → Except DiskError Place}
    (h : d.entry? place = none) (f : File)
    (hfollow : ∀ p names q, follow p names = .ok q → follow' p names = .ok q) (p : Place)
    (names : List String) (hwalk : walkWith follow d p names = .ok q) :
    walkWith follow' (d.add place (.file f)) p names = .ok q := by
  induction names generalizing p with
  | nil => exact hwalk
  | cons name rest ih =>
    rw [walkWith] at hwalk ⊢
    rcases hop_add h f p name with hsame | ⟨⟨limits, habsent⟩, -⟩
    · rw [hsame]
      cases hhop : d.hop p name with
      | error err => simp [hhop] at hwalk
      | ok next =>
        cases next with
        | place p' => exact ih p' (by simpa only [hhop] using hwalk)
        | link target => exact hfollow _ _ _ (by simpa only [hhop] using hwalk)
        | absent limits => simp [hhop] at hwalk
    · simp [habsent] at hwalk

/-- A walk that gets somewhere gets there also beside a new file. -/
theorem walk_add (h : d.entry? place = none) (f : File) (links : Nat) (p : Place)
    (names : List String) (q : Place) (hwalk : d.walk links p names = .ok q) :
    (d.add place (.file f)).walk links p names = .ok q := by
  induction links generalizing p names q with
  | zero => exact walkWith_add h f (fun _ _ _ hq => hq) p names hwalk
  | succ links ih => exact walkWith_add h f ih p names hwalk

theorem walkWith_of_add {follow follow' : Place → List String → Except DiskError Place}
    (h : d.entry? place = none) (hq : q ≠ place)
    (hfollow : ∀ p names, follow' p names = .ok q → follow p names = .ok q) (p : Place)
    (names : List String) (hwalk : walkWith follow' (d.add place (.file f)) p names = .ok q) :
    walkWith follow d p names = .ok q := by
  induction names generalizing p with
  | nil => exact hwalk
  | cons name rest ih =>
    rw [walkWith] at hwalk ⊢
    rcases hop_add h f p name with hsame | ⟨-, hplace⟩
    · rw [hsame] at hwalk
      cases hhop : d.hop p name with
      | error err => simp [hhop] at hwalk
      | ok next =>
        cases next with
        | place p' => exact ih p' (by simpa only [hhop] using hwalk)
        | link target => exact hfollow _ _ (by simpa only [hhop] using hwalk)
        | absent limits => simp [hhop] at hwalk
    · -- from the new file, which is no directory, no walk goes on
      simp only [hplace] at hwalk
      have hfile : Disk.entry? (d.add place (.file f)) place = some (.file f) := by
        rw [entry?_add h, if_pos rfl]
      cases rest with
      | nil => exact absurd (Except.ok.inj hwalk).symm hq
      | cons name' rest => simp [walkWith, hop_of_file hfile] at hwalk

/-- A walk that does not end at the new file got where it gets before. -/
theorem walk_of_add (h : d.entry? place = none) (hq : q ≠ place) (links : Nat) (p : Place)
    (names : List String) (hwalk : (d.add place (.file f)).walk links p names = .ok q) :
    d.walk links p names = .ok q := by
  induction links generalizing p names with
  | zero => exact walkWith_of_add h hq (fun _ _ hfail => by simp at hfail) p names hwalk
  | succ links ih => exact walkWith_of_add h hq ih p names hwalk

/-- A path finds the same thing before and after, unless it now leads to the new file. -/
theorem find_add (h : d.entry? place = none)
    (apart : (d.add place (.file f)).resolve path ≠ .ok place) (x : Entry) :
    (d.add place (.file f)).find path = .ok x ↔ d.find path = .ok x := by
  have hback : ∀ q, (d.add place (.file f)).resolve path = .ok q → q ≠ place :=
    fun q hq hplace => apart (hplace ▸ hq)
  have horigin : (d.add place (.file f)).origin path = d.origin path := rfl
  rw [find_eq_ok_iff, find_eq_ok_iff]
  constructor
  · rintro ⟨q, hq, hx⟩
    have hne := hback q hq
    obtain ⟨p, hp, hwalk⟩ := resolve_eq_ok_iff.mp hq
    rw [entry?_add h, if_neg hne] at hx
    exact ⟨q, resolve_eq_ok_iff.mpr ⟨p, horigin ▸ hp, walk_of_add h hne _ _ _ hwalk⟩, hx⟩
  · rintro ⟨q, hq, hx⟩
    obtain ⟨p, hp, hwalk⟩ := resolve_eq_ok_iff.mp hq
    have hne : q ≠ place := by
      rintro rfl
      simp [h] at hx
    refine ⟨q, resolve_eq_ok_iff.mpr ⟨p, horigin ▸ hp, walk_add h f _ _ _ _ hwalk⟩, ?_⟩
    rw [entry?_add h, if_neg hne, hx]

end add

section opening

variable {d e : Disk} {sink : Sink} {path : String}

/-- Opening for appending finds what takes the bytes and leaves the disk as it is, or it makes an
empty file where nothing is. -/
def Opens (d : Disk) (sink : Sink) (e : Disk) : Prop :=
  e = d ∨ ∃ place, d.entry? place = none ∧ sink = .file d.nodes.length ∧
    e = d.add place (.file { content := ByteArray.empty })

theorem opens_openAt {p : Place} (h : d.openAt p = .ok (sink, e)) : d.Opens sink e := by
  left
  rw [openAt] at h
  split at h
  · split at h
    · simp at h
    · exact (Prod.mk.inj (Except.ok.inj h)).2.symm
  · split at h
    · simp at h
    · exact (Prod.mk.inj (Except.ok.inj h)).2.symm
  · simp at h

theorem entry?_of_hop_absent {p : Place} {name : String} {limits : Limits}
    (h : d.hop p name = .ok (.absent limits)) : d.entry? (p ++ [name]) = none := by
  rw [hop] at h
  split at h
  · next within _ =>
    cases hsearch : within.noSearch with
    | some err =>
      simp only [hsearch] at h
      split_ifs at h
      simp at h
    | none =>
      simp only [hsearch] at h
      cases hentry : d.entry? (p ++ [name]) with
      | none => rfl
      | some x =>
        simp only [hentry] at h
        cases x <;> split_ifs at h <;> simp at h
  · simp at h

theorem opens_create {p : Place} {name : String} {limits : Limits}
    (hhop : d.hop p name = .ok (.absent limits))
    (h : d.create limits (p ++ [name]) = .ok (sink, e)) : d.Opens sink e := by
  rw [create] at h
  split at h
  · simp at h
  · obtain ⟨rfl, rfl⟩ := Prod.mk.inj (Except.ok.inj h)
    exact .inr ⟨p ++ [name], entry?_of_hop_absent hhop, rfl, rfl⟩

theorem opens_openWith {follow : Place → List String → Except DiskError (Sink × Disk)}
    (hfollow : ∀ p names, follow p names = .ok (sink, e) → d.Opens sink e) (p : Place)
    (names : List String) (h : openWith follow d p names = .ok (sink, e)) : d.Opens sink e := by
  induction names generalizing p with
  | nil => simp [openWith] at h
  | cons name rest ih =>
    rw [openWith] at h
    split at h
    · split at h <;> simp at h
    · cases hhop : d.hop p name with
      | error err => simp [hhop] at h
      | ok next =>
        simp only [hhop] at h
        cases next with
        | place q =>
          dsimp only at h
          split at h
          · exact opens_openAt h
          · exact ih q h
        | link target => exact hfollow _ _ h
        | absent limits =>
          dsimp only at h
          split at h
          · exact opens_create hhop h
          · simp at h

theorem opens_openFrom (links : Nat) (p : Place) (names : List String)
    (h : d.openFrom links p names = .ok (sink, e)) : d.Opens sink e := by
  induction links generalizing p names with
  | zero => exact opens_openWith (fun _ _ hfail => by simp at hfail) p names h
  | succ links ih => exact opens_openWith ih p names h

theorem opens_openForAppend (h : d.openForAppend path = .ok (sink, e)) : d.Opens sink e := by
  obtain ⟨p, -, hopen⟩ := bind_eq_ok_iff.mp h
  exact opens_openFrom maxLinks p (names path) hopen

/-- Opening a log changes nothing for a path that does not lead to the log file. -/
theorem Opens.find_eq_ok_iff (h : d.Opens sink e)
    (apart : ∀ i q, sink = .file i → e.resolve path = .ok q → e.index? q ≠ some i) (x : Entry) :
    e.find path = .ok x ↔ d.find path = .ok x := by
  rcases h with rfl | ⟨place, hplace, rfl, rfl⟩
  · rfl
  · refine find_add hplace (fun hq => apart _ _ rfl hq ?_) x
    simp [index?_add, (index?_of_entry?_none hplace).1]

/-- What is at a place that is not the log file's was there before the log was opened. -/
theorem Opens.entry?_eq (h : d.Opens sink e) {q : Place}
    (apart : ∀ i, sink = .file i → e.index? q ≠ some i) : e.entry? q = d.entry? q := by
  rcases h with rfl | ⟨place, hplace, rfl, rfl⟩
  · rfl
  · have hq : q ≠ place := by
      rintro rfl
      exact apart _ rfl (by simp [index?_add, (index?_of_entry?_none hplace).1])
    rw [entry?_add hplace, if_neg hq]

end opening

end Disk

end LineLexer
