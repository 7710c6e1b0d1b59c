import LineLexer.Proofs.Stored
import Mathlib.Data.Set.Card
import Mathlib.Logic.Relation

/-! Handles on files in memory. A handle and its clones are one family with one finite map, whatever
the order of cloning and inserting, and the map of a family is what its own inserts have made. -/

namespace LineLexer

/-- What is done with a growing list of handles, of which there are `count` at the end. -/
inductive HandleRun : Nat → Type where
  | start : HandleRun 0
  | insert {count : Nat} (r : HandleRun count) (handle : Fin count) (path : String)
      (content : ByteArray) : HandleRun count
  | clone {count : Nat} (r : HandleRun count) (handle : Fin count) : HandleRun (count + 1)
  | new {count : Nat} (r : HandleRun count) : HandleRun (count + 1)
  | withFiles {count : Nat} (r : HandleRun count) (files : List (String × ByteArray)) :
      HandleRun (count + 1)

/-- A chain of clonings, in either direction, joins the two handles. -/
def SameFamily (clones : List (Nat × Nat)) (i j : Nat) : Prop :=
  Relation.EqvGen (fun a b => (a, b) ∈ clones) i j

namespace HandleRun

def result {count : Nat} : HandleRun count → FileHandles
  | start => .empty
  | insert r handle path content => r.result.insert handle path content
  | clone r handle => r.result.clone handle
  | new r => r.result.new
  | withFiles r files => r.result.withFiles files

/-- Each cloned handle with its clone. -/
def clones {count : Nat} : HandleRun count → List (Nat × Nat)
  | start => []
  | insert r _ _ _ => r.clones
  | @clone count r handle => r.clones ++ [(handle.val, count)]
  | new r => r.clones
  | withFiles r _ => r.clones

/-- The inserts in order, each with its handle. -/
def history {count : Nat} : HandleRun count → List (Nat × String × ByteArray)
  | start => []
  | insert r handle path content => r.history ++ [(handle.val, path, content)]
  | clone r _ => r.history
  | new r => r.history
  | @withFiles count r files => r.history ++ files.map (count, ·)

def Family {count : Nat} (r : HandleRun count) (i j : Nat) : Prop := SameFamily r.clones i j

noncomputable instance {count : Nat} (r : HandleRun count) (i j : Nat) :
    Decidable (r.Family i j) :=
  Classical.propDecidable _

/-- The inserts through any handle of the family, in order. -/
noncomputable def inserted {count : Nat} (r : HandleRun count) (i : Nat) :
    List (String × ByteArray) :=
  (r.history.filter fun f => r.Family i f.1).map Prod.snd

end HandleRun

namespace FileHandles

/-- Handles share a table exactly when clonings join them, and a table holds what was inserted
through its handles. -/
structure Tracks (h : FileHandles) (clones : List (Nat × Nat))
    (history : List (Nat × String × ByteArray)) : Prop where
  table_lt : ∀ k ∈ h.handles, k < h.tables.length
  handle_lt : ∀ f ∈ history, f.1 < h.handles.length
  cloned : ∀ c ∈ clones, ∃ k, h.handles[c.1]? = some k ∧ h.handles[c.2]? = some k
  joined : ∀ i j k, h.handles[i]? = some k → h.handles[j]? = some k → SameFamily clones i j
  stored : ∀ k < h.tables.length, h.tables[k]? = some
    (.ofList ((history.filter fun f => h.handles[f.1]? == some k).map Prod.snd))

variable {h : FileHandles} {clones : List (Nat × Nat)} {history : List (Nat × String × ByteArray)}

theorem getElem?_concat_eq_some_iff {handles : List Nat} {i k m : Nat} :
    (handles ++ [k])[i]? = some m ↔ handles[i]? = some m ∨ i = handles.length ∧ m = k := by
  rcases Nat.lt_trichotomy i handles.length with hi | rfl | hi
  · simp [List.getElem?_append_left hi, Nat.ne_of_lt hi]
  · simp [eq_comm]
  · have hnone : handles[i]? = none := List.getElem?_eq_none (Nat.le_of_lt hi)
    have hone : [k][i - handles.length]? = none := List.getElem?_eq_none (by simp; omega)
    simp [List.getElem?_append_right (Nat.le_of_lt hi), hnone, hone, Nat.ne_of_gt hi]

theorem filter_concat (hlt : ∀ f ∈ history, f.1 < h.handles.length) (k m : Nat) :
    (history.filter fun f => (h.handles ++ [k])[f.1]? == some m) =
      history.filter fun f => h.handles[f.1]? == some m :=
  List.filter_congr fun f hf => by rw [List.getElem?_append_left (hlt f hf)]

theorem filter_files (handles : List Nat) (files : List (String × ByteArray)) (k m : Nat) :
    (files.map (handles.length, ·)).filter (fun f => (handles ++ [m])[f.1]? == some k) =
      if k = m then files.map (handles.length, ·) else [] := by
  have hlast : (handles ++ [m])[handles.length]? = some m := by simp
  split
  · next hk =>
    refine List.filter_eq_self.mpr fun f hf => ?_
    obtain ⟨g, -, rfl⟩ := List.mem_map.mp hf
    rw [hlast, hk, beq_self_eq_true]
  · next hk =>
    refine List.filter_eq_nil_iff.mpr fun f hf => ?_
    obtain ⟨g, -, rfl⟩ := List.mem_map.mp hf
    simpa using Ne.symm hk

theorem ofList_concat (files : List (String × ByteArray)) (path : String) (content : ByteArray) :
    FileTable.ofList (files ++ [(path, content)]) =
      (FileTable.ofList files).insert path content := by
  rw [FileTable.ofList, List.foldl_append]
  rfl

theorem Tracks.insert (ht : h.Tracks clones history) {i : Nat} (hi : i < h.handles.length)
    (path : String) (content : ByteArray) :
    (h.insert i path content).Tracks clones (history ++ [(i, path, content)]) := by
  have hslot : h.handles[i]? = some h.handles[i] := List.getElem?_eq_getElem hi
  rw [FileHandles.insert, hslot]
  refine ⟨?_, ?_, ht.cloned, ht.joined, ?_⟩
  · simpa using ht.table_lt
  · intro f hf
    rcases List.mem_append.mp hf with hf | hf
    · exact ht.handle_lt f hf
    · obtain rfl := List.mem_singleton.mp hf
      exact hi
  · intro k hk
    have hstored := ht.stored k (by simpa using hk)
    simp only [List.getElem?_modify, hstored, List.filter_append, List.map_append]
    by_cases hsame : h.handles[i] = k
    · simp [hslot, hsame, ofList_concat]
    · simp [hslot, hsame]

theorem Tracks.clone (ht : h.Tracks clones history) {i : Nat} (hi : i < h.handles.length) :
    (h.clone i).Tracks (clones ++ [(i, h.handles.length)]) history := by
  have hslot : h.handles[i]? = some h.handles[i] := List.getElem?_eq_getElem hi
  have hmono : ∀ {a b}, SameFamily clones a b →
      SameFamily (clones ++ [(i, h.handles.length)]) a b :=
    fun hf => hf.mono fun _ _ hm => List.mem_append_left _ hm
  have hnew : SameFamily (clones ++ [(i, h.handles.length)]) i h.handles.length :=
    .rel _ _ (by simp)
  rw [FileHandles.clone, hslot]
  refine ⟨?_, ?_, ?_, ?_, ?_⟩
  · intro k hk
    rcases List.mem_append.mp hk with hk | hk
    · exact ht.table_lt k hk
    · rw [List.mem_singleton.mp hk]
      exact ht.table_lt _ (List.getElem_mem hi)
  · intro f hf
    have hlt := ht.handle_lt f hf
    rw [List.length_append]
    omega
  · intro c hc
    simp only [getElem?_concat_eq_some_iff]
    rcases List.mem_append.mp hc with hc | hc
    · obtain ⟨k, h1, h2⟩ := ht.cloned c hc
      exact ⟨k, .inl h1, .inl h2⟩
    · obtain rfl := List.mem_singleton.mp hc
      exact ⟨_, .inl hslot, .inr ⟨rfl, rfl⟩⟩
  · intro a b k ha hb
    rw [getElem?_concat_eq_some_iff] at ha hb
    -- what shares the table of the clone is joined with it through the cloned handle
    rcases ha with ha | ⟨rfl, rfl⟩ <;> rcases hb with hb | ⟨rfl, hk⟩
    · exact hmono (ht.joined a b k ha hb)
    · exact (hmono (ht.joined a i k ha (hk ▸ hslot))).trans _ _ _ hnew
    · exact (hnew.symm).trans _ _ _ (hmono (ht.joined i b _ hslot hb))
    · exact .refl _
  · intro k hk
    rw [filter_concat ht.handle_lt]
    exact ht.stored k hk

theorem Tracks.withFiles (ht : h.Tracks clones history) (files : List (String × ByteArray)) :
    (h.withFiles files).Tracks clones (history ++ files.map (h.handles.length, ·)) := by
  -- no handle has the new table yet
  have hapart : ∀ i, h.handles[i]? ≠ some h.tables.length := fun i hi =>
    Nat.lt_irrefl _ (ht.table_lt _ (List.mem_of_getElem? hi))
  refine ⟨?_, ?_, ?_, ?_, ?_⟩
  · intro k hk
    simp only [FileHandles.withFiles, List.length_append, List.length_singleton]
    rcases List.mem_append.mp hk with hk | hk
    · have hlt := ht.table_lt k hk
      omega
    · rw [List.mem_singleton.mp hk]
      omega
  · intro f hf
    simp only [FileHandles.withFiles, List.length_append, List.length_singleton]
    rcases List.mem_append.mp hf with hf | hf
    · have hlt := ht.handle_lt f hf
      omega
    · obtain ⟨g, -, rfl⟩ := List.mem_map.mp hf
      exact Nat.lt_succ_self _
  · intro c hc
    obtain ⟨k, h1, h2⟩ := ht.cloned c hc
    simp only [FileHandles.withFiles, getElem?_concat_eq_some_iff]
    exact ⟨k, .inl h1, .inl h2⟩
  · intro a b k ha hb
    simp only [FileHandles.withFiles, getElem?_concat_eq_some_iff] at ha hb
    rcases ha with ha | ⟨rfl, rfl⟩ <;> rcases hb with hb | ⟨rfl, hk⟩
    · exact ht.joined a b k ha hb
    · exact absurd (hk ▸ ha) (hapart a)
    · exact absurd hb (hapart b)
    · exact .refl _
  · intro k hk
    simp only [FileHandles.withFiles, List.length_append, List.length_singleton] at hk ⊢
    rw [List.filter_append, filter_concat ht.handle_lt, filter_files, List.map_append]
    by_cases hlast : k = h.tables.length
    · have hnone : (history.filter fun f => h.handles[f.1]? == some k) = [] :=
        List.filter_eq_nil_iff.mpr fun f _ => by simpa [hlast] using hapart f.1
      rw [hnone, hlast]
      simp
    · rw [if_neg hlast, List.map_nil, List.append_nil, List.getElem?_append_left (by omega)]
      exact ht.stored k (by omega)

theorem Tracks.same_of_family (ht : h.Tracks clones history) {i j : Nat}
    (hf : SameFamily clones i j) : h.handles[i]? = h.handles[j]? := by
  induction hf with
  | rel a b hab =>
    obtain ⟨k, ha, hb⟩ := ht.cloned _ hab
    exact ha.trans hb.symm
  | refl a => rfl
  | symm a b _ ih => exact ih.symm
  | trans a b c _ _ hab hbc => exact hab.trans hbc

theorem Tracks.family_iff (ht : h.Tracks clones history) {i j k : Nat}
    (hi : h.handles[i]? = some k) : SameFamily clones i j ↔ h.handles[j]? = some k :=
  ⟨fun hf => (ht.same_of_family hf).symm.trans hi, ht.joined i j k hi⟩

end FileHandles

namespace FileTable

def keys (t : FileTable) : List String := t.entries.map Prod.fst

theorem mem_keys_insert (t : FileTable) (path : String) (content : ByteArray) (key : String) :
    key ∈ (t.insert path content).keys ↔ normalPath path = key ∨ key ∈ t.keys := by
  by_cases h : normalPath path = key
  · simp [keys, insert, h]
  · simp [keys, insert, h, Ne.symm h]

theorem nodup_keys_insert {t : FileTable} (ht : t.keys.Nodup) (path : String)
    (content : ByteArray) : (t.insert path content).keys.Nodup := by
  have hkept : ((t.entries.filter fun e => e.1 != normalPath path).map Prod.fst).Nodup :=
    ht.sublist (List.filter_sublist.map Prod.fst)
  refine List.nodup_cons.mpr ⟨?_, hkept⟩
  simp

theorem keys_foldl_insert (inserts : List (String × ByteArray)) {t : FileTable}
    (ht : t.keys.Nodup) :
    let u := inserts.foldl (fun t f => t.insert f.1 f.2) t
    u.keys.Nodup ∧ ∀ key, key ∈ u.keys ↔ (∃ f ∈ inserts, normalPath f.1 = key) ∨ key ∈ t.keys := by
  induction inserts generalizing t with
  | nil => exact ⟨ht, by simp⟩
  | cons f inserts ih =>
    obtain ⟨hnodup, hmem⟩ := ih (nodup_keys_insert ht f.1 f.2)
    refine ⟨hnodup, fun key => ?_⟩
    rw [List.foldl_cons, hmem, mem_keys_insert]
    simp only [List.mem_cons, exists_eq_or_imp]
    exact or_left_comm.trans or_assoc.symm

/-- Paths that are the same count once. -/
theorem size_ofList (inserts : List (String × ByteArray)) :
    (ofList inserts).size = {key | ∃ f ∈ inserts, normalPath f.1 = key}.ncard := by
  have hkeys := keys_foldl_insert inserts (t := empty) List.nodup_nil
  rw [← ofList] at hkeys
  obtain ⟨hnodup, hmem⟩ := hkeys
  have hset : {key | ∃ f ∈ inserts, normalPath f.1 = key} =
      ((ofList inserts).keys.toFinset : Set String) := by
    ext key
    rw [List.coe_toFinset]
    exact ((hmem key).trans (or_iff_left (List.not_mem_nil))).symm
  rw [hset, Set.ncard_coe_finset, List.toFinset_card_of_nodup hnodup, keys, List.length_map, size]

end FileTable

namespace HandleRun

variable {count : Nat}

theorem tracks (r : HandleRun count) :
    r.result.handles.length = count ∧ r.result.Tracks r.clones r.history := by
  induction r with
  | start => exact ⟨rfl, by simp [result, FileHandles.empty], by simp [history],
      by simp [clones], by simp [result, FileHandles.empty], by simp [result, FileHandles.empty]⟩
  | insert r handle path content ih =>
    obtain ⟨hlen, ht⟩ := ih
    have hlt : handle.val < r.result.handles.length := by omega
    have hsame : (r.result.insert handle path content).handles = r.result.handles := by
      simp [FileHandles.insert, hlt]
    exact ⟨(congrArg List.length hsame).trans hlen, ht.insert hlt path content⟩
  | clone r handle ih =>
    obtain ⟨hlen, ht⟩ := ih
    have hlt : handle.val < r.result.handles.length := by omega
    have hclone := ht.clone hlt
    rw [hlen] at hclone
    exact ⟨by simp [result, FileHandles.clone, hlen], hclone⟩
  | new r ih =>
    obtain ⟨hlen, ht⟩ := ih
    have hnew := ht.withFiles []
    rw [List.map_nil, List.append_nil, ← FileHandles.new_eq] at hnew
    exact ⟨by simp [result, FileHandles.new, hlen], hnew⟩
  | withFiles r files ih =>
    obtain ⟨hlen, ht⟩ := ih
    have hfiles := ht.withFiles files
    rw [hlen] at hfiles
    exact ⟨by simp [result, FileHandles.withFiles, hlen], hfiles⟩

theorem table_eq (r : HandleRun count) (i : Fin count) :
    r.result.table i = .ofList (r.inserted i) := by
  obtain ⟨hlen, ht⟩ := r.tracks
  have hlt : i.val < r.result.handles.length := by omega
  have hslot : r.result.handles[i.val]? = some r.result.handles[i.val] :=
    List.getElem?_eq_getElem hlt
  have hfilter : r.inserted i = (r.history.filter fun f =>
      r.result.handles[f.1]? == some r.result.handles[i.val]).map Prod.snd := by
    refine congrArg (List.map Prod.snd) (List.filter_congr fun f _ => ?_)
    rw [Bool.eq_iff_iff, decide_eq_true_iff, beq_iff_eq]
    exact ht.family_iff hslot
  rw [FileHandles.table, hslot, Option.bind_some,
    ht.stored _ (ht.table_lt _ (List.getElem_mem hlt)), Option.getD_some, hfilter]

theorem inserted_insert_of_family {r : HandleRun count} {i j : Fin count} (h : r.Family i j)
    (path : String) (content : ByteArray) :
    (r.insert j path content).inserted i = r.inserted i ++ [(path, content)] := by
  have hone : (r.insert j path content).Family i j := h
  simp only [inserted, history, List.filter_append, List.map_append]
  rw [List.filter_singleton, decide_eq_true hone]
  rfl

theorem inserted_insert_of_not_family {r : HandleRun count} {i j : Fin count}
    (h : ¬ r.Family i j) (path : String) (content : ByteArray) :
    (r.insert j path content).inserted i = r.inserted i := by
  have hone : ¬ (r.insert j path content).Family i j := h
  simp only [inserted, history, List.filter_append, List.map_append]
  rw [List.filter_singleton, decide_eq_false hone]
  exact List.append_nil _

theorem find?_insert_of_not_samePath (r : HandleRun count) (i j : Fin count) {path other : String}
    (h : ¬ SamePath path other) (content : ByteArray) :
    ((r.insert j path content).result.table i).find? other = (r.result.table i).find? other := by
  rw [table_eq, table_eq]
  by_cases hf : r.Family i j
  · rw [inserted_insert_of_family hf, FileHandles.ofList_concat, FileTable.find?_insert, if_neg h]
  · rw [inserted_insert_of_not_family hf]

/-- A handle reads as the finite map that the inserts of its family make, and an insert changes
that map under its own path only. -/
theorem refines_map (r : HandleRun count) (i : Fin count) :
    let t := r.result.table i
    (∀ path content, t.read path = .ok content ↔ LastInsert (r.inserted i) path content) ∧
    (∀ path e, t.read path = .error e ↔
      e = .notFound (normalPath path) ∧ ∀ f ∈ r.inserted i, ¬ SamePath f.1 path) ∧
    (∀ path, (t.contains path = true ↔ ∃ content, t.read path = .ok content) ∧
      t.reader.isFile path = t.contains path) ∧
    t.size = {key | ∃ f ∈ r.inserted i, normalPath f.1 = key}.ncard ∧
    ∀ (j : Fin count) (path : String) (content : ByteArray),
      let u := (r.insert j path content).result.table i
      (¬ r.Family i j → u = t) ∧
        ∀ other, ¬ SamePath path other →
          u.read other = t.read other ∧ u.contains other = t.contains other := by
  intro t
  have hread : ∀ path content, t.read path = .ok content ↔ t.find? path = some content := by
    intro path content
    rw [FileTable.read]
    cases t.find? path <;> simp
  refine ⟨?_, ?_, ?_, ?_, ?_⟩
  · intro path content
    rw [hread, ← FileTable.find?_ofList_eq_some_iff, ← table_eq]
  · intro path e
    rw [← FileTable.find?_ofList_eq_none_iff, ← table_eq]
    change t.read path = _ ↔ _ ∧ t.find? path = none
    rw [FileTable.read]
    cases t.find? path <;> simp [eq_comm]
  · intro path
    simp only [hread]
    exact ⟨Option.isSome_iff_exists, rfl⟩
  · rw [← FileTable.size_ofList, ← table_eq]
  · intro j path content u
    refine ⟨fun hf => ?_, fun other h => ?_⟩
    · have hinserted := inserted_insert_of_not_family hf path content
      exact (table_eq _ i).trans ((congrArg FileTable.ofList hinserted).trans (table_eq r i).symm)
    · have hfind := find?_insert_of_not_samePath r i j h content
      exact ⟨by rw [FileTable.read, FileTable.read, hfind],
        by rw [FileTable.contains, FileTable.contains, hfind]⟩

example (files : List (String × ByteArray)) : (start.withFiles files).result = .ofList files := rfl

example (content : ByteArray) :
    (((start.new.clone 0).insert 1 "a\\b" content).result.table 0).read "a/b" = .ok content := by
  rfl

end HandleRun

end LineLexer
