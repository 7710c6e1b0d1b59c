import LineLexer.Json
import Mathlib.Data.List.Perm.Basic

/-! The fields of a record. Each is found by its name, wherever it stands, and other members do not
matter; a field that is there twice spoils the whole record. -/

namespace LineLexer

namespace Json

/-- Some of the fields in any order, and among them any members with other names. -/
def IsPartial (fields : List (String × Json)) (kept : String → Bool) (v : Json) : Prop :=
  ∃ others members : List (String × Json),
    (∀ m ∈ others, m.1 ∉ fields.map Prod.fst) ∧
      members.Perm (fields.filter (fun f => kept f.1) ++ others) ∧ v = record members

/-- An object that has two members of one of these names. -/
def Repeats (names : List String) (v : Json) : Prop :=
  ∃ members : List (Option String × Json), v = .object members ∧
    ∃ name ∈ names, 1 < members.countP fun m => m.1 == some name

theorem filter_of_nodup {members : List (String × Json)} (h : (members.map Prod.fst).Nodup)
    (name : String) :
    members.filter (fun m => m.1 == name) = (members.lookup name).toList.map (name, ·) := by
  induction members with
  | nil => rfl
  | cons m members ih =>
    obtain ⟨k, v⟩ := m
    obtain ⟨hk, hmembers⟩ := List.nodup_cons.mp h
    by_cases hname : k = name
    · have hnone : members.filter (fun m => m.1 == name) = [] := by
        rw [List.filter_eq_nil_iff]
        intro m hm hm'
        rw [hname, ← beq_iff_eq.mp hm'] at hk
        exact hk (List.mem_map.mpr ⟨m, hm, rfl⟩)
      simp [hname, hnone]
    · have hbeq : (name == k) = false := beq_false_of_ne (Ne.symm hname)
      rw [List.lookup_cons, hbeq, ← ih hmembers, List.filter_cons_of_neg (by simpa using hname)]

theorem lookup_filter (fields : List (String × Json)) (kept : String → Bool) (name : String) :
    (fields.filter fun f => kept f.1).lookup name =
      if kept name then fields.lookup name else none := by
  induction fields with
  | nil => simp
  | cons f fields ih =>
    obtain ⟨k, v⟩ := f
    by_cases hname : name = k
    · subst hname
      by_cases hkept : kept name = true
      · simp [hkept]
      · simpa [hkept] using ih
    · have hbeq : (name == k) = false := beq_false_of_ne hname
      by_cases hkept : kept k = true
      · rw [List.filter_cons_of_pos (by simpa using hkept), List.lookup_cons, List.lookup_cons, hbeq]
        exact ih
      · rw [List.filter_cons_of_neg (by simpa using hkept), List.lookup_cons, hbeq]
        exact ih

theorem mapM_eq_some_map {f : String → Option (Option Json)} {g : String → Option Json}
    {names : List String} (h : ∀ name ∈ names, f name = some (g name)) :
    names.mapM f = some (names.map g) := by
  induction names with
  | nil => rfl
  | cons name names ih =>
    have hrest := ih fun n hn => h n (List.mem_cons_of_mem _ hn)
    rw [List.mapM_cons, h name (by simp), hrest]
    rfl

theorem mapM_eq_none {f : String → Option (Option Json)} {names : List String} {name : String}
    (hname : name ∈ names) (h : f name = none) : names.mapM f = none := by
  induction names with
  | nil => simp at hname
  | cons n names ih =>
    rw [List.mapM_cons]
    rcases List.mem_cons.mp hname with rfl | hname
    · rw [h]
      rfl
    · rw [ih hname]
      cases f n <;> rfl

theorem fields?_record {names : List String} {members : List (String × Json)}
    {values : String → Option Json}
    (h : ∀ name ∈ names, members.filter (fun m => m.1 == name) =
      (values name).toList.map (name, ·)) :
    (record members).fields? names = some (names.map values) := by
  have hkeys : ((members.map fun m => (some m.1, m.2)).any fun m => m.1.isNone) = false := by
    simp
  rw [record, fields?, hkeys, if_neg Bool.false_ne_true]
  refine mapM_eq_some_map fun name hname => ?_
  have hfilter : (members.map fun m => (some m.1, m.2)).filter (fun m => m.1 == some name) =
      (members.filter fun m => m.1 == name).map fun m => (some m.1, m.2) := by
    rw [List.filter_map]
    rfl
  rw [hfilter, h name hname]
  cases values name <;> rfl

theorem fields?_of_nodup {members : List (String × Json)} (h : (members.map Prod.fst).Nodup)
    (names : List String) :
    (record members).fields? names = some (names.map fun name => members.lookup name) :=
  fields?_record fun name _ => filter_of_nodup h name

/-- At most one value has no other order. -/
theorem eq_of_perm_toList {α β : Type} {l : List β} {o : Option α} {f : α → β}
    (h : l.Perm (o.toList.map f)) : l = o.toList.map f := by
  cases o with
  | none => exact h.eq_nil
  | some a => exact List.perm_singleton.mp h

theorem fields?_of_perm {fields members : List (String × Json)} (h : members.Perm fields)
    (hfields : (fields.map Prod.fst).Nodup) (names : List String) :
    (record members).fields? names = some (names.map fun name => fields.lookup name) :=
  fields?_record fun name _ =>
    eq_of_perm_toList (filter_of_nodup hfields name ▸ h.filter fun m => m.1 == name)

theorem fields?_of_isPartial {fields : List (String × Json)} {kept : String → Bool} {v : Json}
    (hfields : (fields.map Prod.fst).Nodup) (h : IsPartial fields kept v) {names : List String}
    (hnames : ∀ name ∈ names, name ∈ fields.map Prod.fst) :
    v.fields? names =
      some (names.map fun name => if kept name then fields.lookup name else none) := by
  obtain ⟨others, members, hothers, hperm, rfl⟩ := h
  refine fields?_record fun name hname => ?_
  have hnone : others.filter (fun m => m.1 == name) = [] := by
    rw [List.filter_eq_nil_iff]
    intro m hm hm'
    exact hothers m hm (beq_iff_eq.mp hm' ▸ hnames name hname)
  have hkept : ((fields.filter fun f => kept f.1).map Prod.fst).Nodup :=
    hfields.sublist (List.filter_sublist.map Prod.fst)
  have hfilter := hperm.filter fun m => m.1 == name
  rw [List.filter_append, hnone, List.append_nil, filter_of_nodup hkept, lookup_filter] at hfilter
  exact eq_of_perm_toList hfilter

theorem isPartial_record (fields : List (String × Json)) :
    IsPartial fields (fun _ => true) (record fields) := by
  refine ⟨[], fields, by simp, ?_, rfl⟩
  simp only [List.filter_true, List.append_nil]
  exact .refl fields

theorem mem_zip_of_mapM {f : String → Option (Option Json)} {names : List String}
    {values : List (Option Json)} (h : names.mapM f = some values) {name : String}
    (hname : name ∈ names) : ∃ value, (name, value) ∈ names.zip values ∧ f name = some value := by
  induction names generalizing values with
  | nil => simp at hname
  | cons n names ih =>
    rw [List.mapM_cons] at h
    obtain ⟨value, hvalue, h⟩ := Option.bind_eq_some_iff.mp h
    obtain ⟨rest, hrest, h⟩ := Option.bind_eq_some_iff.mp h
    obtain rfl := Option.some.inj h
    rcases List.mem_cons.mp hname with rfl | hname
    · exact ⟨value, by simp, hvalue⟩
    · obtain ⟨w, hw, hf⟩ := ih hrest hname
      exact ⟨w, by simp [hw], hf⟩

/-- The member of that name is the one that is found. -/
theorem mem_zip_of_fields? {members : List (Option String × Json)} {names : List String}
    {values : List (Option Json)} (h : (object members).fields? names = some values)
    {name : String} {v : Json} (hname : name ∈ names) (hm : (some name, v) ∈ members) :
    (name, some v) ∈ names.zip values := by
  rw [fields?] at h
  split at h
  · simp at h
  · obtain ⟨value, hmem, hvalue⟩ := mem_zip_of_mapM h hname
    have hfilter : (some name, v) ∈ members.filter fun m => m.1 == some name :=
      List.mem_filter.mpr ⟨hm, by simp⟩
    split at hvalue
    · next hnil =>
      rw [hnil] at hfilter
      simp at hfilter
    · next m hone =>
      rw [hone, List.mem_singleton] at hfilter
      rw [← hfilter] at hvalue
      rwa [← Option.some.inj hvalue] at hmem
    · simp at hvalue

theorem fields?_of_repeats {names : List String} {v : Json} (h : Repeats names v) :
    v.fields? names = none := by
  obtain ⟨members, rfl, name, hname, hcount⟩ := h
  rw [fields?]
  split
  · rfl
  · refine mapM_eq_none hname ?_
    rw [List.countP_eq_length_filter] at hcount
    split
    · next hnil => simp [hnil] at hcount
    · next hone => simp [hone] at hcount
    · rfl

theorem optional?_ofOption {α : Type} {read? : Json → Option α} {write : α → Json}
    (h : ∀ a, read? (write a) = some a) (hnull : ∀ a, write a ≠ .null) (a : Option α) :
    optional? read? (ofOption write a) = some a := by
  cases a with
  | none => rfl
  | some a =>
    rw [ofOption, optional?, h a]
    · rfl
    · exact hnull a

end Json

end LineLexer
