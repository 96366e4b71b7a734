import GameTimeline.Field.ModelSet
import GameTimeline.Proofs.Field.Verdict
import GameTimeline.Timeline.Builder

namespace GameTimeline

def Domain.Measured (d : Domain) : Prop :=
  d = .nonNegative ∨ (∃ min max, d = .bounded min max) ∨ d = .timer

theorem Domain.isNumeric_iff {d : Domain} : d.isNumeric = true ↔ d.Measured := by
  constructor
  · intro h
    cases d with
    | nonNegative => exact .inl rfl
    | bounded min max => exact .inr (.inl ⟨min, max, rfl⟩)
    | timer => exact .inr (.inr rfl)
    | labels values => cases h
    | flag => cases h
    | text => cases h
  · rintro (rfl | ⟨min, max, rfl⟩ | rfl) <;> rfl

theorem Domain.isOrdered_iff {d : Domain} : d.isOrdered = true ↔ d ≠ .text := by
  constructor
  · rintro h rfl
    cases h
  · intro h
    cases d with
    | text => exact absurd rfl h
    | _ => rfl

namespace FieldModel

structure Sound (m : FieldModel) : Prop where
  range : ∀ min max, m.domain = .bounded min max → min ≤ max
  labels : ∀ ls, m.domain = .labels ls → ls ≠ [] ∧ ls.Nodup
  ordered : ∀ b, m.monotonicity = .nonDecreasing b → m.domain ≠ .text
  bound : ∀ b, m.monotonicity.bound? = some b → m.domain.Measured ∧ 0 ≤ b.toInt
  majority : 1 ≤ m.majority ∧ m.majority ≤ m.window
  confidence : ∀ c, m.minConfidence = some c → 0 ≤ c ∧ c ≤ 1
  terminal : ∀ t, m.terminal = some t → m.normalize t = some t

variable {m : FieldModel}

theorem repeatedLabel?_eq_none_iff {seen ls : List String} :
    repeatedLabel? seen ls = none ↔ ls.Nodup ∧ ∀ l ∈ ls, l ∉ seen := by
  induction ls generalizing seen with
  | nil => simp [repeatedLabel?]
  | cons l ls ih =>
      rw [repeatedLabel?]
      split
      · rename_i hseen
        have hl : l ∈ seen := List.contains_iff_mem.mp hseen
        simp [hl]
      · rename_i hseen
        have hl : l ∉ seen := fun hl => hseen (List.contains_iff_mem.mpr hl)
        rw [ih]
        simp only [List.nodup_cons, List.mem_cons, not_or, forall_eq_or_imp]
        constructor
        · rintro ⟨hnodup, hfresh⟩
          exact ⟨⟨fun hmem => (hfresh l hmem).1 rfl, hnodup⟩, hl, fun x hx => (hfresh x hx).2⟩
        · rintro ⟨⟨hnew, hnodup⟩, -, hfresh⟩
          exact ⟨hnodup, fun x hx => ⟨fun h => hnew (h ▸ hx), hfresh x hx⟩⟩

theorem checkDomain_eq_ok_iff : m.checkDomain = .ok () ↔
    (∀ min max, m.domain = .bounded min max → min ≤ max) ∧
      ∀ ls, m.domain = .labels ls → ls ≠ [] ∧ ls.Nodup := by
  rw [checkDomain]
  cases hd : m.domain with
  | bounded min max => simp [Int64.not_lt]
  | labels ls =>
      cases ls with
      | nil => simp
      | cons l ls =>
          cases hrepeated : repeatedLabel? [] (l :: ls) with
          | none => simpa [hrepeated] using (repeatedLabel?_eq_none_iff.mp hrepeated).1
          | some x =>
              have hnot : ¬ (l :: ls).Nodup := fun h => by
                have hnone := repeatedLabel?_eq_none_iff.mpr ⟨h, fun _ _ => List.not_mem_nil⟩
                cases hrepeated.symm.trans hnone
              simpa [hrepeated] using hnot
  | nonNegative => simp
  | timer => simp
  | flag => simp
  | text => simp

theorem checkMonotonicity_eq_ok_iff : m.checkMonotonicity = .ok () ↔
    (∀ b, m.monotonicity = .nonDecreasing b → m.domain ≠ .text) ∧
      ∀ b, m.monotonicity.bound? = some b → m.domain.Measured ∧ 0 ≤ b.toInt := by
  have hmeasured : m.domain.Measured → m.domain ≠ .text := fun h =>
    Domain.isOrdered_iff.mp (Domain.isOrdered_of_isNumeric (Domain.isNumeric_iff.mpr h))
  rw [checkMonotonicity]
  cases hk : m.monotonicity with
  | free => simp [Monotonicity.bound?]
  | boundedDelta b => simp [Monotonicity.bound?, checkBound_eq_ok_iff, Domain.isNumeric_iff]
  | nonDecreasing b =>
      cases b with
      | none => simp [Monotonicity.bound?, ← Domain.isOrdered_iff]
      | some b =>
          rw [checkBound_eq_ok_iff, Domain.isNumeric_iff]
          constructor
          · intro h
            refine ⟨fun _ _ => hmeasured h.1, fun b' hb' => ?_⟩
            obtain rfl := Option.some.inj hb'
            exact h
          · intro h
            exact h.2 b rfl

theorem checkConfidence_eq_ok_iff : m.checkConfidence = .ok () ↔
    ∀ c, m.minConfidence = some c → 0 ≤ c ∧ c ≤ 1 := by
  rw [checkConfidence]
  cases m.minConfidence <;> simp

theorem checkTerminal_eq_ok_iff : m.checkTerminal = .ok () ↔
    ∀ t, m.terminal = some t → m.normalize t = some t := by
  rw [checkTerminal]
  cases m.terminal <;> simp

theorem validate_eq_ok_iff_sound : m.validate = .ok () ↔ m.Sound := by
  rw [validate_eq_ok_iff, checkDomain_eq_ok_iff, checkMonotonicity_eq_ok_iff,
    checkWindow_eq_ok_iff, checkConfidence_eq_ok_iff, checkTerminal_eq_ok_iff]
  constructor
  · rintro ⟨⟨hrange, hlabels⟩, ⟨hordered, hbound⟩, ⟨-, hpos, hle⟩, hconfidence, hterminal⟩
    exact ⟨hrange, hlabels, hordered, hbound, ⟨hpos, hle⟩, hconfidence, hterminal⟩
  · intro h
    exact ⟨⟨h.range, h.labels⟩, ⟨h.ordered, h.bound⟩,
      ⟨Nat.lt_of_lt_of_le h.majority.1 h.majority.2, h.majority⟩, h.confidence, h.terminal⟩

end FieldModel

namespace FieldEntry

def movement (e : FieldEntry) : Monotonicity :=
  match e.kind with
  | .free => .free
  | .nonDecreasing => .nonDecreasing e.bound
  | .boundedDelta => .boundedDelta (e.bound.getD 0)

def rule (e : FieldEntry) (d : Defaults) : FieldModel := .effective e d e.movement

structure Sound (e : FieldEntry) (d : Defaults) : Prop where
  required : e.kind = .boundedDelta → e.bound ≠ none
  allowed : e.kind = .free → e.bound = none
  rule : (e.rule d).Sound

variable {e : FieldEntry} {d : Defaults} {m : FieldModel} {μ : Monotonicity}

theorem monotonicityOf_eq_ok_iff : FieldModel.monotonicityOf e = .ok μ ↔
    ((e.kind = .boundedDelta → e.bound ≠ none) ∧ (e.kind = .free → e.bound = none)) ∧
      μ = e.movement := by
  rw [FieldModel.monotonicityOf, movement]
  cases e.kind <;> cases e.bound <;> simp [eq_comm]

theorem ofEntry_eq_ok_iff : FieldModel.ofEntry d e = .ok m ↔ e.Sound d ∧ m = e.rule d := by
  rw [FieldModel.ofEntry]
  cases hμ : FieldModel.monotonicityOf e with
  | error x =>
      have hnot : ¬ e.Sound d := fun h => by
        have hok := monotonicityOf_eq_ok_iff.mpr ⟨⟨h.required, h.allowed⟩, rfl⟩
        cases hμ.symm.trans hok
      simp [hnot, bind, Except.bind]
  | ok μ =>
      obtain ⟨⟨hrequired, hallowed⟩, rfl⟩ := monotonicityOf_eq_ok_iff.mp hμ
      have hsound : e.Sound d ↔ (e.rule d).validate = .ok () := by
        rw [FieldModel.validate_eq_ok_iff_sound]
        exact ⟨Sound.rule, fun h => ⟨hrequired, hallowed, h⟩⟩
      rw [hsound, rule]
      cases hvalid : (FieldModel.effective e d e.movement).validate with
      | error x => simp [hvalid, bind, Except.bind]
      | ok u => simp [hvalid, bind, Except.bind, pure, Except.pure, eq_comm]

end FieldEntry

namespace ModelSet

variable {s : ModelSet} {l : List FieldModel} {t u : Table FieldModel} {n : String}
  {m : FieldModel} {c : RuleConfig}

theorem get?_insert_eq_none_iff :
    (∀ x ∈ l, (t.insert n m).get? x.name = none) ↔
      n ∉ l.map (·.name) ∧ ∀ x ∈ l, t.get? x.name = none := by
  simp only [Table.get?_insert, List.mem_map, not_exists, not_and]
  constructor
  · intro h
    refine ⟨fun x hx hn => ?_, fun x hx => ?_⟩
    · simpa [hn] using h x hx
    · have hx := h x hx
      split at hx
      · cases hx
      · exact hx
  · rintro ⟨hfresh, hnone⟩ x hx
    rw [if_neg (hfresh x hx), hnone x hx]

theorem addAll_eq_ok_iff : addAll t l = .ok u ↔
    (∀ m ∈ l, m.validate = .ok ()) ∧ (l.map (·.name)).Nodup ∧ (∀ m ∈ l, t.get? m.name = none) ∧
      u = (l.map fun m => (m.name, m)).foldl (fun t e => t.insert e.1 e.2) t := by
  induction l generalizing t with
  | nil => simp [addAll, eq_comm]
  | cons m l ih =>
      simp only [addAll, List.forall_mem_cons, List.map_cons, List.nodup_cons, List.foldl_cons]
      cases hvalid : m.validate with
      | error x => simp
      | ok v =>
          cases hget : t.get? m.name with
          | some x => simp [Table.contains, hget]
          | none =>
              simp only [Table.contains, hget, Option.isSome_none, Bool.false_eq_true, if_false,
                ih, get?_insert_eq_none_iff, true_and]
              constructor
              · rintro ⟨hall, hnodup, ⟨hfresh, hnone⟩, hu⟩
                exact ⟨hall, ⟨hfresh, hnodup⟩, hnone, hu⟩
              · rintro ⟨hall, ⟨hfresh, hnodup⟩, hnone, hu⟩
                exact ⟨hall, hnodup, ⟨hfresh, hnone⟩, hu⟩

theorem ofList_eq_ok_iff_addAll : ofList l = .ok s ↔ l ≠ [] ∧ addAll .empty l = .ok s.models := by
  obtain ⟨models, _, _, _⟩ := s
  rw [ofList]
  split
  case isTrue hl => simp [hl]
  case isFalse hl =>
    rw [and_iff_right hl]
    split
    case h_1 x hx => simp [hx]
    case h_2 t ht =>
      constructor
      · intro h
        cases h
        exact ht
      · intro h
        obtain rfl := Except.ok.inj (ht.symm.trans h)
        rfl

theorem ofList_eq_ok_iff : ofList l = .ok s ↔ l ≠ [] ∧ (l.map (·.name)).Nodup ∧
    (∀ m ∈ l, m.Sound) ∧ ∀ n m, s.get? n = some m ↔ m ∈ l ∧ m.name = n := by
  have hlookup (hnodup : (l.map (·.name)).Nodup) (n : String) (m : FieldModel) :
      (Table.ofList (l.map fun m => (m.name, m))).get? n = some m ↔ m ∈ l ∧ m.name = n := by
    have hkeys : ((l.map fun m => (m.name, m)).map (·.1)).Nodup := by
      rwa [List.map_map]
    rw [Table.get?_ofList_eq_some_iff hkeys, List.mem_map]
    constructor
    · rintro ⟨x, hx, hpair⟩
      cases hpair
      exact ⟨hx, rfl⟩
    · rintro ⟨hm, rfl⟩
      exact ⟨m, hm, rfl⟩
  rw [ofList_eq_ok_iff_addAll, addAll_eq_ok_iff]
  simp only [FieldModel.validate_eq_ok_iff_sound]
  constructor
  · rintro ⟨hl, hall, hnodup, -, hmodels⟩
    refine ⟨hl, hnodup, hall, fun n m => ?_⟩
    rw [get?, hmodels]
    exact hlookup hnodup n m
  · rintro ⟨hl, hnodup, hall, hget⟩
    refine ⟨hl, hall, hnodup, fun _ _ => rfl, Table.ext_get? fun n => ?_⟩
    refine Option.ext fun m => ?_
    exact (hget n m).trans (hlookup hnodup n m).symm

theorem exists_ofList (hl : l ≠ []) (hnodup : (l.map (·.name)).Nodup) (hall : ∀ m ∈ l, m.Sound) :
    ∃ s, ofList l = .ok s := by
  have hadd := addAll_eq_ok_iff.mpr
    ⟨fun m hm => FieldModel.validate_eq_ok_iff_sound.mpr (hall m hm), hnodup,
      fun m _ => (rfl : Table.empty.get? m.name = none), rfl⟩
  rw [ofList, dif_neg hl]
  split
  case h_1 x hx => cases hadd.symm.trans hx
  case h_2 t ht => exact ⟨_, rfl⟩

theorem mapM_ofEntry_eq_ok_iff {es : List FieldEntry} {d : Defaults} :
    es.mapM (FieldModel.ofEntry d) = .ok l ↔ (∀ e ∈ es, e.Sound d) ∧ l = es.map (·.rule d) := by
  have hrules : List.Forall₂ (fun e m => m = e.rule d) es l ↔ l = es.map (·.rule d) := by
    rw [@eq_comm _ l, ← List.forall₂_eq_eq_eq, List.forall₂_map_left_iff]
    simp only [eq_comm]
  simp only [mapM_eq_ok_iff, FieldEntry.ofEntry_eq_ok_iff, List.forall₂_and_left, hrules]

theorem ofConfig_eq_ok_iff : ofConfig c = .ok s ↔
    (∀ e ∈ c.fields, e.Sound c.defaults) ∧ ofList (c.fields.map (·.rule c.defaults)) = .ok s := by
  rw [ofConfig]
  cases hmodels : c.fields.mapM (FieldModel.ofEntry c.defaults) with
  | error x =>
      have hnot : ¬ ∀ e ∈ c.fields, e.Sound c.defaults := fun h => by
        have hok := mapM_ofEntry_eq_ok_iff.mpr ⟨h, rfl⟩
        cases hmodels.symm.trans hok
      simp only [hnot, false_and, iff_false]
      exact fun h => nomatch h
  | ok l =>
      obtain ⟨hall, rfl⟩ := mapM_ofEntry_eq_ok_iff.mp hmodels
      exact (and_iff_right hall).symm

theorem get?_ofConfig (h : ofConfig c = .ok s) :
    s.get? n = some m ↔ ∃ e ∈ c.fields, e.rule c.defaults = m ∧ e.name = n := by
  obtain ⟨-, -, -, hget⟩ := ofList_eq_ok_iff.mp (ofConfig_eq_ok_iff.mp h).2
  rw [hget, List.mem_map]
  constructor
  · rintro ⟨⟨e, he, rfl⟩, rfl⟩
    exact ⟨e, he, rfl, rfl⟩
  · rintro ⟨e, he, rfl, rfl⟩
    exact ⟨⟨e, he, rfl⟩, rfl⟩

theorem ofConfig_perm {fields : List FieldEntry} (hperm : fields.Perm c.fields) :
    ofConfig { c with fields } = .ok s ↔ ofConfig c = .ok s := by
  have hrules := hperm.map (·.rule c.defaults)
  have hempty : fields = [] ↔ c.fields = [] := by
    rw [← List.length_eq_zero_iff, hperm.length_eq, List.length_eq_zero_iff]
  simp only [ofConfig_eq_ok_iff, ofList_eq_ok_iff, hperm.mem_iff, hrules.mem_iff,
    (hrules.map (·.name)).nodup_iff, ne_eq, List.map_eq_nil_iff, hempty]

theorem exists_ofConfig_iff : (∃ s, ofConfig c = .ok s) ↔
    c.fields ≠ [] ∧ (c.fields.map (·.name)).Nodup ∧ ∀ e ∈ c.fields, e.Sound c.defaults := by
  have hnames : (c.fields.map (·.rule c.defaults)).map (·.name) = c.fields.map (·.name) := by
    rw [List.map_map]
    rfl
  constructor
  · rintro ⟨s, hs⟩
    obtain ⟨hsound, hlist⟩ := ofConfig_eq_ok_iff.mp hs
    obtain ⟨hne, hnodup, -, -⟩ := ofList_eq_ok_iff.mp hlist
    exact ⟨fun hempty => hne (List.map_eq_nil_iff.mpr hempty), hnames ▸ hnodup, hsound⟩
  · rintro ⟨hne, hnodup, hsound⟩
    obtain ⟨s, hs⟩ := exists_ofList (fun hempty => hne (List.map_eq_nil_iff.mp hempty))
      (hnames.symm ▸ hnodup) (List.forall_mem_map.mpr fun e he => (hsound e he).rule)
    exact ⟨s, ofConfig_eq_ok_iff.mpr ⟨hsound, hs⟩⟩

theorem declared_rules_sound (c : RuleConfig) :
    ((∃ s, ofConfig c = .ok s) ↔ c.fields ≠ [] ∧ (c.fields.map (·.name)).Nodup ∧
      ∀ e ∈ c.fields, e.Sound c.defaults) ∧
    ∀ s, ofConfig c = .ok s →
      (∀ e ∈ c.fields, s.get? e.name = some (e.rule c.defaults)) ∧
      (∀ n, n ∈ s.names ↔ n ∈ c.fields.map (·.name)) ∧ s.names.Pairwise (· < ·) ∧
      ∀ fields, fields.Perm c.fields → ∃ s', ofConfig { c with fields } = .ok s' ∧
        ∀ frames, assemble s' frames = assemble s frames := by
  refine ⟨exists_ofConfig_iff, fun s hs => ⟨?rules, ?names, ?ordered, ?order⟩⟩
  case rules => exact fun e he => (get?_ofConfig hs).mpr ⟨e, he, rfl, rfl⟩
  case names =>
    intro n
    rw [mem_names_iff, List.mem_map]
    constructor
    · rintro ⟨m, hm⟩
      obtain ⟨e, he, -, hname⟩ := (get?_ofConfig hs).mp hm
      exact ⟨e, he, hname⟩
    · rintro ⟨e, he, rfl⟩
      exact ⟨e.rule c.defaults, (get?_ofConfig hs).mpr ⟨e, he, rfl, rfl⟩⟩
  case ordered => exact s.models.keys_ordered
  case order => exact fun fields hperm => ⟨s, (ofConfig_perm hperm).mpr hs, fun _ => rfl⟩

def phaseEntry : FieldEntry := ⟨"phase", .labels ["early", "late"], .nonDecreasing, none, some 5,
  none, none, none, some (.text "late")⟩

def goldEntry : FieldEntry := ⟨"gold", .bounded 0 99999, .boundedDelta, some 50, none, some 2, none,
  some 0.5, none⟩

def clockEntry : FieldEntry :=
  ⟨"clock", .timer, .nonDecreasing, some 2, none, none, some 9, none, none⟩

def gameRules (d : Defaults) : RuleConfig := ⟨d, [phaseEntry, goldEntry, clockEntry]⟩

theorem gameRules_sound {d : Defaults} (hphase : (phaseEntry.rule d).Sound)
    (hgold : (goldEntry.rule d).Sound) (hclock : (clockEntry.rule d).Sound) :
    ∀ e ∈ (gameRules d).fields, e.Sound d := by
  have hentries : phaseEntry.Sound d ∧ goldEntry.Sound d ∧ clockEntry.Sound d :=
    ⟨⟨nofun, nofun, hphase⟩, ⟨nofun, nofun, hgold⟩, ⟨nofun, nofun, hclock⟩⟩
  simpa [gameRules] using hentries

theorem declared_rules_sound_game : ∃ (c : RuleConfig) (s : ModelSet), ofConfig c = .ok s ∧
    c.defaults = ⟨4, none, 300⟩ ∧ c.fields.map (·.name) = ["phase", "gold", "clock"] ∧
    s.get? "phase" = some ⟨"phase", .labels ["early", "late"], .nonDecreasing none, 5, 3, 300, none,
      some (.text "late")⟩ ∧
    s.get? "gold" =
      some ⟨"gold", .bounded 0 99999, .boundedDelta 50, 4, 2, 300, some 0.5, none⟩ ∧
    s.get? "clock" = some ⟨"clock", .timer, .nonDecreasing (some 2), 4, 3, 9, none, none⟩ ∧
    "clock" ∈ s.names ∧ s.names.Pairwise (· < ·) ∧
    (∃ s', ofConfig { c with fields := c.fields.reverse } = .ok s' ∧
      ∀ frames, assemble s' frames = assemble s frames) ∧
    ∃ s', ofConfig { c with defaults := ⟨6, some 5, 300⟩ } = .ok s' ∧
      s'.get? "phase" = some ⟨"phase", .labels ["early", "late"], .nonDecreasing none, 5, 5, 300,
        none, some (.text "late")⟩ ∧
      s'.get? "gold" =
        some ⟨"gold", .bounded 0 99999, .boundedDelta 50, 6, 2, 300, some 0.5, none⟩ ∧
      s'.get? "clock" = some ⟨"clock", .timer, .nonDecreasing (some 2), 6, 5, 9, none, none⟩ := by
  have hphase : phaseEntry.rule ⟨4, none, 300⟩ = ⟨"phase", .labels ["early", "late"],
      .nonDecreasing none, 5, 3, 300, none, some (.text "late")⟩ := by
    simp [FieldEntry.rule, FieldModel.effective, FieldEntry.movement, simpleMajority, phaseEntry]
  have hclock : clockEntry.rule ⟨4, none, 300⟩ =
      ⟨"clock", .timer, .nonDecreasing (some 2), 4, 3, 9, none, none⟩ := by
    simp [FieldEntry.rule, FieldModel.effective, FieldEntry.movement, simpleMajority, clockEntry]
  have hsimple := gameRules_sound (d := ⟨4, none, 300⟩)
    (hphase ▸ FieldModel.validate_eq_ok_iff_sound.mp rfl)
    (FieldModel.validate_eq_ok_iff_sound.mp rfl)
    (hclock ▸ FieldModel.validate_eq_ok_iff_sound.mp rfl)
  have hdefault := gameRules_sound (d := ⟨6, some 5, 300⟩)
    (FieldModel.validate_eq_ok_iff_sound.mp rfl) (FieldModel.validate_eq_ok_iff_sound.mp rfl)
    (FieldModel.validate_eq_ok_iff_sound.mp rfl)
  obtain ⟨hexists, hset⟩ := declared_rules_sound (gameRules ⟨4, none, 300⟩)
  obtain ⟨s, hs⟩ := hexists.mpr ⟨List.cons_ne_nil _ _, by decide, hsimple⟩
  obtain ⟨hrules, hnames, hordered, horder⟩ := hset s hs
  obtain ⟨hexists', hset'⟩ := declared_rules_sound (gameRules ⟨6, some 5, 300⟩)
  obtain ⟨s', hs'⟩ := hexists'.mpr ⟨List.cons_ne_nil _ _, by decide, hdefault⟩
  obtain ⟨hrules', -⟩ := hset' s' hs'
  simp only [gameRules, List.forall_mem_cons] at hrules hrules'
  exact ⟨_, s, hs, rfl, rfl, hphase ▸ hrules.1, hrules.2.1, hclock ▸ hrules.2.2.1,
    (hnames "clock").mpr (by decide), hordered, horder _ (List.reverse_perm _), s', hs',
    hrules'.1, hrules'.2.1, hrules'.2.2.1⟩

end ModelSet

end GameTimeline
