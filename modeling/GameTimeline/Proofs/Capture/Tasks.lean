import GameTimeline.Capture.Tasks
import GameTimeline.Proofs.Capture.Raster
import GameTimeline.Proofs.Capture.Recognition

namespace GameTimeline

namespace Task

def promise (r : Recognizer) (t : Task) : String × Recognition :=
  (t.field, t.answer.getD (r.recognize t.field t.crop))

def left (t : Task) : Nat := if t.answer.isSome then 1 else 2

theorem left_pos (t : Task) : 0 < t.left := by
  rw [left]
  split <;> decide

end Task

namespace TaskGroup

variable {r : Recognizer} {g g' : TaskGroup} {m : Move} {moves more : List Move} {place : Nat}
  {out : List (String × Recognition)} {crops : List (String × Image)}

def promised (r : Recognizer) (g : TaskGroup) : List (String × Recognition) :=
  g.joined ++ g.tasks.map (Task.promise r) ++ g.waiting.map fun c => (c.1, r.recognize c.1 c.2)

def left (g : TaskGroup) : Nat := 3 * g.waiting.length + (g.tasks.map Task.left).sum

theorem spawn?_keeps (h : g.spawn? = some g') :
    g'.promised r = g.promised r ∧ g'.left + 1 = g.left := by
  obtain ⟨waiting, tasks, joined⟩ := g
  cases waiting with
  | nil => cases h
  | cons c rest =>
      cases h
      constructor
      · simp [promised, Task.promise]
      · have hleft : Task.left ⟨c.1, c.2, none⟩ = 2 := rfl
        simp only [left, List.map_append, List.map_cons, List.map_nil, List.sum_append,
          List.sum_cons, List.sum_nil, List.length_cons, hleft]
        omega

theorem finish?_splits (h : g.finish? r place = some g') : ∃ before field crop after,
    g.tasks = before ++ ⟨field, crop, none⟩ :: after ∧
    g' = { g with
      tasks := before ++ ⟨field, crop, some (r.recognize field crop)⟩ :: after } := by
  rw [finish?] at h
  split at h
  case h_2 => cases h
  case h_1 field crop htask =>
    obtain ⟨hplace, hget⟩ := List.getElem?_eq_some_iff.mp htask
    obtain ⟨before, after, htasks, -, hset⟩ := List.exists_of_set hplace
    rw [hset] at h
    exact ⟨before, field, crop, after, hget ▸ htasks, (Option.some.inj h).symm⟩

theorem finish?_keeps (h : g.finish? r place = some g') :
    g'.promised r = g.promised r ∧ g'.left + 1 = g.left := by
  obtain ⟨before, field, crop, after, htasks, rfl⟩ := finish?_splits h
  constructor
  · simp [promised, htasks, Task.promise]
  · have hopen : Task.left ⟨field, crop, none⟩ = 2 := rfl
    have hdone : Task.left ⟨field, crop, some (r.recognize field crop)⟩ = 1 := rfl
    simp only [left, htasks, List.map_append, List.map_cons, List.sum_append, List.sum_cons, hopen,
      hdone]
    omega

theorem join?_keeps (h : g.join? = some g') :
    g'.promised r = g.promised r ∧ g'.left + 1 = g.left := by
  rw [join?] at h
  split at h
  case h_2 => cases h
  case h_1 field crop answer rest hwaiting htasks =>
    cases h
    constructor
    · simp [promised, htasks, Task.promise]
    · have hdone : Task.left ⟨field, crop, some answer⟩ = 1 := rfl
      simp only [left, htasks, List.map_cons, List.sum_cons, hdone]
      omega

theorem move?_keeps (h : g.move? r m = some g') :
    g'.promised r = g.promised r ∧ g'.left + 1 = g.left := by
  cases m with
  | spawn => exact spawn?_keeps h
  | finish place => exact finish?_keeps h
  | join => exact join?_keeps h

theorem play?_keeps (h : g.play? r moves = some g') :
    g'.promised r = g.promised r ∧ g'.left + moves.length = g.left := by
  induction moves generalizing g with
  | nil =>
      cases h
      exact ⟨rfl, rfl⟩
  | cons m moves ih =>
      obtain ⟨next, hnext, hplay⟩ := Option.bind_eq_some_iff.mp h
      obtain ⟨hpromised, hleft⟩ := move?_keeps hnext
      obtain ⟨hpromised', hleft'⟩ := ih hplay
      refine ⟨hpromised'.trans hpromised, ?_⟩
      rw [List.length_cons]
      omega

theorem play?_append :
    g.play? r (moves ++ more) = (g.play? r moves).bind fun g' => g'.play? r more := by
  induction moves generalizing g with
  | nil => rfl
  | cons m moves ih =>
      rw [List.cons_append, play?, play?, Option.bind_assoc]
      exact congrArg _ (funext fun _ => ih)

theorem answers?_eq_some_iff (r : Recognizer) :
    g.answers? = some out ↔ g.left = 0 ∧ out = g.promised r := by
  obtain ⟨waiting, tasks, joined⟩ := g
  cases waiting with
  | cons c rest => simp [answers?, left]
  | nil =>
      cases tasks with
      | nil => simp [answers?, left, promised, eq_comm]
      | cons t rest =>
          have hpos := t.left_pos
          simp [answers?, left, Nat.ne_of_gt hpos]

theorem exists_move (h : 0 < g.left) : ∃ m g', g.move? r m = some g' := by
  obtain ⟨waiting, tasks, joined⟩ := g
  cases waiting with
  | cons c rest => exact ⟨.spawn, _, rfl⟩
  | nil =>
      cases tasks with
      | nil => exact absurd h (Nat.lt_irrefl _)
      | cons t rest =>
          obtain ⟨field, crop, answer⟩ := t
          cases answer with
          | none => exact ⟨.finish 0, _, rfl⟩
          | some answer => exact ⟨.join, _, rfl⟩

theorem exists_end (r : Recognizer) (g : TaskGroup) :
    ∃ moves g', g.play? r moves = some g' ∧ g'.answers? = some (g.promised r) := by
  induction hleft : g.left generalizing g with
  | zero => exact ⟨[], g, rfl, (answers?_eq_some_iff r).mpr ⟨hleft, rfl⟩⟩
  | succ n ih =>
      obtain ⟨m, next, hnext⟩ := exists_move (r := r) (g := g) (by omega)
      obtain ⟨hpromised, hleft'⟩ := move?_keeps hnext
      obtain ⟨moves, g', hplay, hanswers⟩ := ih next (by omega)
      refine ⟨m :: moves, g', ?_, hpromised ▸ hanswers⟩
      rw [play?, hnext, Option.bind_some, hplay]

theorem promised_of_play? (h : (g.play? r moves).bind answers? = some out) :
    out = g.promised r := by
  obtain ⟨g', hplay, hanswers⟩ := Option.bind_eq_some_iff.mp h
  rw [← (play?_keeps hplay).1]
  exact ((answers?_eq_some_iff r).mp hanswers).2

/-! Tasks that finish in an order given beforehand. -/

def course (order : List Nat) : List Move :=
  List.replicate order.length .spawn ++ order.map .finish ++ List.replicate order.length .join

theorem play?_spawns (tasks : List Task) (joined : List (String × Recognition)) :
    play? r ⟨crops, tasks, joined⟩ (List.replicate crops.length .spawn) =
      some ⟨[], tasks ++ crops.map fun c => ⟨c.1, c.2, none⟩, joined⟩ := by
  induction crops generalizing tasks with
  | nil => simp [play?]
  | cons c crops ih => simp [play?, move?, spawn?, ih, List.replicate_succ]

theorem play?_finishes {order : List Nat} {tasks : List Task} (hnodup : order.Nodup)
    (hopen : ∀ i, i ∈ order ↔ ∃ t, tasks[i]? = some t ∧ t.answer = none) :
    ∃ tasks', play? r ⟨[], tasks, []⟩ (order.map .finish) = some ⟨[], tasks', []⟩ ∧
      tasks'.length = tasks.length ∧ ∀ t ∈ tasks', t.answer ≠ none := by
  induction order generalizing tasks with
  | nil =>
      refine ⟨tasks, rfl, rfl, fun t ht hnone => ?_⟩
      obtain ⟨i, hi⟩ := List.getElem?_of_mem ht
      exact absurd ((hopen i).mpr ⟨t, hi, hnone⟩) List.not_mem_nil
  | cons i order ih =>
      obtain ⟨hi, hnodup⟩ := List.nodup_cons.mp hnodup
      obtain ⟨⟨field, crop, answer⟩, htask, rfl⟩ := (hopen i).mp (List.mem_cons_self ..)
      let t : Task := ⟨field, crop, some (r.recognize field crop)⟩
      have hlt := (List.getElem?_eq_some_iff.mp htask).1
      have hrest : ∀ j, j ∈ order ↔ ∃ u, (tasks.set i t)[j]? = some u ∧ u.answer = none := by
        intro j
        by_cases hj : j = i
        · subst hj
          simp [hi, hlt, t]
        · have hother := hopen j
          rw [List.mem_cons, or_iff_right hj] at hother
          rw [hother, List.getElem?_set_ne (Ne.symm hj)]
      obtain ⟨tasks', hplay, hlength, hall⟩ := ih hnodup hrest
      refine ⟨tasks', ?_, by rw [hlength, List.length_set], hall⟩
      simp [play?, move?, finish?, htask, hplay, t]

theorem play?_joins {tasks : List Task} (hall : ∀ t ∈ tasks, t.answer ≠ none)
    (joined : List (String × Recognition)) :
    ∃ out, play? r ⟨[], tasks, joined⟩ (List.replicate tasks.length .join) =
      some ⟨[], [], out⟩ := by
  induction tasks generalizing joined with
  | nil => exact ⟨joined, rfl⟩
  | cons t tasks ih =>
      obtain ⟨field, crop, answer⟩ := t
      obtain ⟨ht, htasks⟩ := List.forall_mem_cons.mp hall
      cases answer with
      | none => exact absurd rfl ht
      | some answer => exact ih htasks (joined ++ [(field, answer)])

theorem play?_course {order : List Nat} (horder : order.Perm (List.range crops.length)) :
    ∃ g', (start crops).play? r (course order) = some g' ∧
      g'.answers? = some ((start crops).promised r) := by
  have hlength : order.length = crops.length := by rw [horder.length_eq, List.length_range]
  have hopen : ∀ i, i ∈ order ↔ ∃ t, (crops.map fun c => Task.mk c.1 c.2 none)[i]? = some t ∧
      t.answer = none := by
    intro i
    rw [horder.mem_iff, List.mem_range]
    constructor
    · intro hi
      exact ⟨⟨crops[i].1, crops[i].2, none⟩, by simp [hi], rfl⟩
    · rintro ⟨t, ht, -⟩
      simpa using (List.getElem?_eq_some_iff.mp ht).1
  obtain ⟨tasks, hfinish, htasks, hall⟩ :=
    play?_finishes (r := r) (horder.nodup_iff.mpr List.nodup_range) hopen
  obtain ⟨out, hjoin⟩ := play?_joins (r := r) hall []
  have hplay : (start crops).play? r (course order) = some ⟨[], [], out⟩ := by
    have hspawn : play? r ⟨crops, [], []⟩ (List.replicate crops.length .spawn) =
        some ⟨[], crops.map fun c => ⟨c.1, c.2, none⟩, []⟩ := play?_spawns [] []
    rw [← hlength] at hspawn
    rw [List.length_map, ← hlength] at htasks
    rw [htasks] at hjoin
    rw [course, play?_append, play?_append, start, hspawn, Option.bind_some, hfinish,
      Option.bind_some, hjoin]
  refine ⟨_, hplay, (answers?_eq_some_iff r).mpr ⟨rfl, ?_⟩⟩
  rw [(play?_keeps hplay).1]

end TaskGroup

namespace SampledStream

variable {l : Layout} {r : Recognizer} {image : Image} {cs : List (String × Image)}
  {moves : List TaskGroup.Move} {x : CaptureError}

def Misfit (l : Layout) (image : Image) (e : String × Region) : Prop :=
  ∃ before after, l.entries = before ++ e :: after ∧
    (∀ b ∈ before, b.2.fits image.width image.height = true) ∧
    ¬ e.2.fits image.width image.height = true

theorem crops_eq_error_iff : crops l image = .error x ↔
    ∃ e, Misfit l image e ∧ x = .regionOutOfBounds none e.2 image.width image.height := by
  have hcut (e : String × Region) : (∃ c, (image.crop e.2).map (fun c => (e.1, c)) = .ok c) ↔
      e.2.fits image.width image.height = true := by
    by_cases hfits : e.2.fits image.width image.height = true
    · simp [hfits, Image.crop_of_fits, Except.map]
    · simp [hfits, Image.crop_eq_error, Except.map]
  have hrefused (e : String × Region) : (image.crop e.2).map (fun c => (e.1, c)) = .error x ↔
      ¬ e.2.fits image.width image.height = true ∧
        x = .regionOutOfBounds none e.2 image.width image.height := by
    by_cases hfits : e.2.fits image.width image.height = true
    · simp [hfits, Image.crop_of_fits, Except.map]
    · simp [hfits, Image.crop_eq_error, Except.map, eq_comm]
  simp only [crops, mapM_eq_error_iff, hcut, hrefused]
  constructor
  · rintro ⟨before, e, after, hentries, hbefore, hmisfit, hx⟩
    exact ⟨e, ⟨before, after, hentries, hbefore, hmisfit⟩, hx⟩
  · rintro ⟨e, ⟨before, after, hentries, hbefore, hmisfit⟩, hx⟩
    exact ⟨before, e, after, hentries, hbefore, hmisfit, hx⟩

theorem names_of_crops (h : crops l image = .ok cs) : cs.map (·.1) = l.keys := by
  have hshare := mapM_eq_ok_iff.mp h
  rw [Table.keys]
  clear h
  generalize l.entries = es at hshare
  induction hshare with
  | nil => rfl
  | @cons e c es cs hcrop _ ih =>
      cases hcut : image.crop e.2 with
      | error x => simp [hcut, Except.map] at hcrop
      | ok i =>
          obtain rfl : (e.1, i) = c := by simpa [hcut, Except.map] using hcrop
          rw [List.map_cons, List.map_cons, ih]

theorem length_of_crops (h : crops l image = .ok cs) : cs.length = l.size := by
  rw [← List.length_map (f := (·.1)), names_of_crops h, Table.keys, List.length_map, Table.size]

theorem recognizeSequential_eq_map (l : Layout) (r : Recognizer) (image : Image) :
    recognizeSequential l r image =
      (crops l image).map fun cs => (TaskGroup.start cs).promised r := by
  rw [← recognizeParallel_eq]
  rfl

theorem recognizeByTasks_of_crops (h : crops l image = .ok cs) :
    recognizeByTasks moves l r image =
      .ok (((TaskGroup.start cs).play? r moves).bind TaskGroup.answers?) := by
  rw [recognizeByTasks, h]
  rfl

theorem recognizeByTasks_eq_error_iff : recognizeByTasks moves l r image = .error x ↔
    recognizeSequential l r image = .error x := by
  rw [recognizeSequential_eq_map]
  cases hcrops : crops l image with
  | error y => simp [recognizeByTasks, hcrops, Except.map, bind, Except.bind]
  | ok cs => simp [recognizeByTasks_of_crops hcrops, Except.map]

theorem recognizeSequential_of_course {out : List (String × Recognition)}
    (h : recognizeByTasks moves l r image = .ok (some out)) :
    recognizeSequential l r image = .ok out := by
  rw [recognizeSequential_eq_map]
  cases hcrops : crops l image with
  | error y => simp [recognizeByTasks, hcrops, bind, Except.bind] at h
  | ok cs =>
      rw [recognizeByTasks_of_crops hcrops, Except.ok.injEq] at h
      rw [TaskGroup.promised_of_play? h]
      rfl

theorem recognizeByTasks_course {order : List Nat} (horder : order.Perm (List.range l.size)) :
    recognizeByTasks (TaskGroup.course order) l r image =
      (recognizeSequential l r image).map some := by
  rw [recognizeSequential_eq_map]
  cases hcrops : crops l image with
  | error y => simp [recognizeByTasks, hcrops, Except.map, bind, Except.bind]
  | ok cs =>
      rw [← length_of_crops hcrops] at horder
      obtain ⟨g, hplay, hanswers⟩ := TaskGroup.play?_course (r := r) horder
      rw [recognizeByTasks_of_crops hcrops, hplay, Option.bind_some, hanswers]
      rfl

theorem recognizeByTasks_goes_on {g : TaskGroup} (hcrops : crops l image = .ok cs)
    (hplay : (TaskGroup.start cs).play? r moves = some g) :
    moves.length ≤ 3 * l.size ∧ ∃ more, recognizeByTasks (moves ++ more) l r image =
      (recognizeSequential l r image).map some := by
  obtain ⟨hpromised, hleft⟩ := TaskGroup.play?_keeps hplay
  have hstart : (TaskGroup.start cs).left = 3 * l.size := by
    rw [← length_of_crops hcrops]
    rfl
  obtain ⟨more, g', hmore, hanswers⟩ := TaskGroup.exists_end r g
  refine ⟨by omega, more, ?_⟩
  rw [recognizeSequential_eq_map, recognizeByTasks_of_crops hcrops, TaskGroup.play?_append, hplay,
    Option.bind_some, hmore, Option.bind_some, hanswers, hpromised, hcrops]
  rfl

theorem names_of_recognizeSequential {out : List (String × Recognition)}
    (h : recognizeSequential l r image = .ok out) : out.map (·.1) = l.keys := by
  rw [recognizeSequential_eq_map] at h
  cases hcrops : crops l image with
  | error y => simp [hcrops, Except.map] at h
  | ok cs =>
      rw [hcrops] at h
      obtain rfl := Except.ok.inj h
      rw [← names_of_crops hcrops]
      simp [TaskGroup.promised, TaskGroup.start]

theorem recognizeSequential_eq_error_iff : recognizeSequential l r image = .error x ↔
    ∃ e, Misfit l image e ∧ x = .regionOutOfBounds none e.2 image.width image.height := by
  rw [recognizeSequential_eq_map, ← crops_eq_error_iff]
  cases crops l image <;> simp [Except.map]

theorem recognition_course_independent (l : Layout) (r : Recognizer) (image : Image) :
    recognizeParallel l r image = recognizeSequential l r image ∧
    (∀ moves out, recognizeByTasks moves l r image = .ok (some out) →
      recognizeSequential l r image = .ok out) ∧
    (∀ moves x, recognizeByTasks moves l r image = .error x ↔
      recognizeSequential l r image = .error x) ∧
    (∀ order, order.Perm (List.range l.size) →
      recognizeByTasks (TaskGroup.course order) l r image =
        (recognizeSequential l r image).map some) ∧
    (∀ cs moves g, crops l image = .ok cs → (TaskGroup.start cs).play? r moves = some g →
      moves.length ≤ 3 * l.size ∧ ∃ more, recognizeByTasks (moves ++ more) l r image =
        (recognizeSequential l r image).map some) ∧
    (∀ x, recognizeSequential l r image = .error x ↔
      ∃ e, Misfit l image e ∧ x = .regionOutOfBounds none e.2 image.width image.height) ∧
    (∀ out, recognizeSequential l r image = .ok out → out.map (·.1) = l.keys) ∧
    l.keys.Pairwise (· < ·) := by
  refine ⟨recognizeParallel_eq l r image, ?answers, ?errors, ?orders, ?progress, ?misfit, ?names,
    ?ordered⟩
  case answers => exact fun moves out h => recognizeSequential_of_course h
  case errors => exact fun moves x => recognizeByTasks_eq_error_iff
  case orders => exact fun order horder => recognizeByTasks_course horder
  case progress => exact fun cs moves g hcrops hplay => recognizeByTasks_goes_on hcrops hplay
  case misfit => exact fun x => recognizeSequential_eq_error_iff
  case names => exact fun out h => names_of_recognizeSequential h
  case ordered => exact l.keys_ordered

theorem recognition_course_independent_swapped : ∃ (l : Layout) (r : Recognizer)
    (wide narrow : Image) (out : List (String × Recognition)),
    recognizeSequential l r wide = .ok out ∧
    out = [("gold", ⟨some (.int 1), none⟩), ("kills", ⟨some (.int 2), none⟩)] ∧
    [1, 0].Perm (List.range l.size) ∧
    recognizeByTasks (TaskGroup.course [1, 0]) l r wide = .ok (some out) ∧
    (∃ more, recognizeByTasks ([.spawn, .finish 0, .spawn] ++ more) l r wide = .ok (some out)) ∧
    Misfit l narrow ("kills", ⟨1, 0, 2, 1⟩) ∧
    ∀ moves, recognizeByTasks moves l r narrow =
      .error (.regionOutOfBounds none ⟨1, 0, 2, 1⟩ 2 1) := by
  let l : Layout := .ofList [("kills", ⟨1, 0, 2, 1⟩), ("gold", ⟨0, 0, 1, 1⟩)]
  let r : Recognizer := ⟨"width", fun _ c => ⟨some (.int (Int64.ofNat c.width)), none⟩⟩
  let wide := Image.filled 3 1 .black
  let narrow := Image.filled 2 1 .black
  have hseq : recognizeSequential l r wide =
      .ok [("gold", ⟨some (.int 1), none⟩), ("kills", ⟨some (.int 2), none⟩)] := by rfl
  obtain ⟨-, -, -, horders, hprogress, -⟩ := recognition_course_independent l r wide
  obtain ⟨-, -, herrors, -, -, hmisfits, -⟩ := recognition_course_independent l r narrow
  have horder : [1, 0].Perm (List.range l.size) := by decide
  have hmisfit : Misfit l narrow ("kills", ⟨1, 0, 2, 1⟩) :=
    ⟨[("gold", ⟨0, 0, 1, 1⟩)], [], by decide, by decide, by decide⟩
  have hcourse := horders [1, 0] horder
  rw [hseq] at hcourse
  obtain ⟨-, more, hmore⟩ := hprogress _ [.spawn, .finish 0, .spawn] _ rfl rfl
  rw [hseq] at hmore
  refine ⟨l, r, wide, narrow, _, hseq, rfl, horder, hcourse, ⟨more, hmore⟩, hmisfit, ?_⟩
  intro moves
  exact (herrors moves _).mpr ((hmisfits _).mpr ⟨_, hmisfit, rfl⟩)

end SampledStream

end GameTimeline
