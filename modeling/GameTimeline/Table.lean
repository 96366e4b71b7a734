namespace GameTimeline

structure Table (α : Type) where
  entries : List (String × α)
  ordered : entries.Pairwise (fun a b => a.1 < b.1)

namespace Table

variable {α β : Type}

theorem ext_entries {s t : Table α} (h : s.entries = t.entries) : s = t := by
  cases s
  cases t
  cases h
  rfl

instance [DecidableEq α] : DecidableEq (Table α) := fun s t =>
  decidable_of_iff (s.entries = t.entries) ⟨ext_entries, fun h => h ▸ rfl⟩

def empty : Table α := ⟨[], .nil⟩

instance : Inhabited (Table α) := ⟨empty⟩

def insertEntry (k : String) (a : α) : List (String × α) → List (String × α)
  | [] => [(k, a)]
  | e :: r =>
      if k < e.1 then (k, a) :: e :: r
      else if e.1 < k then e :: insertEntry k a r
      else (k, a) :: r

theorem mem_insertEntry {k : String} {a : α} :
    ∀ {l : List (String × α)} {x : String × α}, x ∈ insertEntry k a l → x = (k, a) ∨ x ∈ l := by
  intro l
  induction l with
  | nil => intro x h; simpa [insertEntry] using h
  | cons e r ih =>
      intro x h
      simp only [insertEntry] at h
      split at h
      · simpa using h
      · split at h
        · rcases List.mem_cons.1 h with rfl | h
          · exact .inr (List.mem_cons_self ..)
          · exact (ih h).imp id (List.mem_cons_of_mem _)
        · rcases List.mem_cons.1 h with rfl | h
          · exact .inl rfl
          · exact .inr (List.mem_cons_of_mem _ h)

theorem insertEntry_ordered {k : String} {a : α} {l : List (String × α)}
    (h : l.Pairwise (fun a b => a.1 < b.1)) :
    (insertEntry k a l).Pairwise (fun a b => a.1 < b.1) := by
  induction l with
  | nil => simp [insertEntry]
  | cons e r ih =>
      have he := List.pairwise_cons.1 h
      simp only [insertEntry]
      split
      · rename_i hk
        refine List.pairwise_cons.2 ⟨?_, h⟩
        intro x hx
        rcases List.mem_cons.1 hx with rfl | hx
        · exact hk
        · exact String.lt_trans hk (he.1 x hx)
      · split
        · rename_i hk
          refine List.pairwise_cons.2 ⟨?_, ih he.2⟩
          intro x hx
          rcases mem_insertEntry hx with rfl | hx
          · exact hk
          · exact he.1 x hx
        · rename_i h₁ h₂
          have hk : k = e.1 := String.le_antisymm (String.not_lt.1 h₂) (String.not_lt.1 h₁)
          exact List.pairwise_cons.2 ⟨fun x hx => hk ▸ he.1 x hx, he.2⟩

def insert (t : Table α) (k : String) (a : α) : Table α :=
  ⟨insertEntry k a t.entries, insertEntry_ordered t.ordered⟩

def findEntry (k : String) : List (String × α) → Option α
  | [] => none
  | e :: r => if k = e.1 then some e.2 else findEntry k r

def get? (t : Table α) (k : String) : Option α := findEntry k t.entries

def contains (t : Table α) (k : String) : Bool := (t.get? k).isSome

def keys (t : Table α) : List String := t.entries.map (·.1)

def values (t : Table α) : List α := t.entries.map (·.2)

def size (t : Table α) : Nat := t.entries.length

def isEmpty (t : Table α) : Bool := t.entries.isEmpty

theorem findEntry_insertEntry (k n : String) (a : α) (l : List (String × α)) :
    findEntry n (insertEntry k a l) = if n = k then some a else findEntry n l := by
  induction l with
  | nil => simp [insertEntry, findEntry]
  | cons e r ih =>
      simp only [insertEntry]
      split
      · simp [findEntry]
      · split
        · rename_i hk
          by_cases hn : n = e.1
          · subst hn
            have hne : e.1 ≠ k := fun h => String.lt_irrefl k (h ▸ hk)
            simp [findEntry, hne]
          · simp [findEntry, hn, ih]
        · rename_i h₁ h₂
          have hk : k = e.1 := String.le_antisymm (String.not_lt.1 h₂) (String.not_lt.1 h₁)
          by_cases hn : n = k
          · simp [findEntry, hn]
          · have hne : n ≠ e.1 := hk ▸ hn
            simp [findEntry, hn, hne]

theorem get?_insert (t : Table α) (k n : String) (a : α) :
    (t.insert k a).get? n = if n = k then some a else t.get? n :=
  findEntry_insertEntry k n a t.entries

def ofList (l : List (String × α)) : Table α :=
  l.foldl (fun t e => t.insert e.1 e.2) empty

def map (f : String → α → β) (t : Table α) : Table β :=
  ⟨t.entries.map fun e => (e.1, f e.1 e.2), List.pairwise_map.2 t.ordered⟩

theorem keys_map (f : String → α → β) (t : Table α) : (t.map f).keys = t.keys := by
  simp [keys, map, Function.comp_def]

theorem get?_map (f : String → α → β) (t : Table α) (k : String) :
    (t.map f).get? k = (t.get? k).map (f k) := by
  obtain ⟨l, h⟩ := t
  simp only [get?, map]
  clear h
  induction l with
  | nil => rfl
  | cons e r ih =>
      by_cases hk : k = e.1
      · simp [findEntry, hk]
      · simpa [findEntry, hk] using ih

def modify (t : Table α) (k : String) (f : α → α) : Table α :=
  t.map fun n a => if n = k then f a else a

theorem keys_modify (t : Table α) (k : String) (f : α → α) : (t.modify k f).keys = t.keys :=
  keys_map _ t

def const (names : List String) (a : α) : Table α :=
  ofList (names.map fun n => (n, a))

end Table

end GameTimeline
