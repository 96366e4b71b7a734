import GameTimeline.Field.Config

namespace GameTimeline

structure ModelSet where
  models : Table FieldModel
  named : ∀ e ∈ models.entries, e.2.name = e.1
  valid : ∀ e ∈ models.entries, e.2.validate = .ok ()
  nonempty : models.entries ≠ []

namespace ModelSet

def addAll (t : Table FieldModel) : List FieldModel → Except RuleError (Table FieldModel)
  | [] => .ok t
  | m :: r =>
      match m.validate with
      | .error e => .error e
      | .ok _ =>
          if t.contains m.name then .error (.duplicateField m.name)
          else addAll (t.insert m.name m) r

theorem addAll_forall {P : String × FieldModel → Prop} (l : List FieldModel)
    (h : ∀ m ∈ l, m.validate = .ok () → P (m.name, m)) :
    ∀ {t u : Table FieldModel}, addAll t l = .ok u → (∀ e ∈ t.entries, P e) →
      ∀ e ∈ u.entries, P e := by
  induction l with
  | nil =>
      intro t u hu ht
      cases hu
      exact ht
  | cons m r ih =>
      intro t u hu ht
      simp only [addAll] at hu
      split at hu
      · cases hu
      · rename_i hm
        split at hu
        · cases hu
        · refine ih (fun x hx => h x (List.mem_cons_of_mem _ hx)) hu ?_
          intro e he
          rcases Table.mem_insertEntry he with rfl | he
          · exact h m (List.mem_cons_self ..) hm
          · exact ht e he

theorem insertEntry_ne_nil (k : String) (m : FieldModel) (l : List (String × FieldModel)) :
    Table.insertEntry k m l ≠ [] := by
  cases l with
  | nil => simp [Table.insertEntry]
  | cons e r =>
      simp only [Table.insertEntry]
      split
      · simp
      · split <;> simp

theorem addAll_ne_nil (l : List FieldModel) :
    ∀ {t u : Table FieldModel}, addAll t l = .ok u → l ≠ [] ∨ t.entries ≠ [] → u.entries ≠ [] := by
  induction l with
  | nil =>
      intro t u hu ht
      cases hu
      exact ht.resolve_left fun h => h rfl
  | cons m r ih =>
      intro t u hu _
      simp only [addAll] at hu
      split at hu
      · cases hu
      · split at hu
        · cases hu
        · exact ih hu (.inr (insertEntry_ne_nil m.name m t.entries))

def ofList (l : List FieldModel) : Except RuleError ModelSet :=
  if hl : l = [] then .error .noFields
  else
    match h : addAll .empty l with
    | .error e => .error e
    | .ok t =>
        .ok ⟨t,
          addAll_forall l (fun _ _ _ => rfl) h (fun _ he => nomatch he),
          addAll_forall l (fun _ _ hm => hm) h (fun _ he => nomatch he),
          addAll_ne_nil l h (.inl hl)⟩

def ofConfig (c : RuleConfig) : Except RuleError ModelSet := do
  let models ← c.fields.mapM (FieldModel.ofEntry c.defaults)
  ofList models

def ofJson (config : Json) : Except RuleError ModelSet := do
  let c ← RuleConfig.ofJson config
  ofConfig c

def names (s : ModelSet) : List String := s.models.keys

def get? (s : ModelSet) (name : String) : Option FieldModel := s.models.get? name

def contains (s : ModelSet) (name : String) : Bool := s.models.contains name

end ModelSet

end GameTimeline
