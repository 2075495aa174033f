import LanguageClient.Proofs.Session.Withdrawals

/-!
# Times

When a user withdraws a request, when responses to it come in and when its connection comes
to its end can be read off a course. Time does not go back, so what comes later in a course
is no earlier. A request counts as withdrawn from the first withdrawal on, and a connection
that is alive has not come to its end.
-/

namespace LanguageClient

variable {D : Type}

namespace Moment

def pause (m : Moment D) : Nat :=
  match m.action with
  | .elapse ms => ms
  | _ => 0

def ends (k : Nat) (m : Moment D) : Bool :=
  m.before.isAlive k && !m.after.isAlive k

end Moment

def times (happens : Moment D -> Bool) (moments : List (Moment D)) : List Nat :=
  (moments.filter happens).map fun m => m.before.now

def withdrawals (id : Nat) (moments : List (Moment D)) : List Nat :=
  times (Moment.withdraws id) moments

def endings (k : Nat) (moments : List (Moment D)) : List Nat :=
  times (Moment.ends k) moments

theorem times_append (happens : Moment D -> Bool) (first second : List (Moment D)) :
    times happens (first ++ second) = times happens first ++ times happens second := by
  rw [times, List.filter_append, List.map_append, times, times]

theorem mem_times {happens : Moment D -> Bool} {moments : List (Moment D)} {t : Nat} :
    t ∈ times happens moments <-> exists m, m ∈ moments ∧ happens m = true ∧
      m.before.now = t := by
  simp [times, and_assoc]

theorem times_eq_nil {happens : Moment D -> Bool} {moments : List (Moment D)} :
    times happens moments = [] <-> moments.any happens = false := by
  simp [times]

theorem mem_responses {k number : Nat} {moments : List (Moment D)} {r : Nat × Response}
    (h : r ∈ responses k number moments) : exists m, m ∈ moments ∧ m.before.now = r.1 := by
  induction moments with
  | nil => contradiction
  | cons m rest ih =>
      rw [responses] at h
      split at h
      case isTrue =>
        rcases List.mem_filterMap.mp h with ⟨m', hm', hresponse⟩
        rcases Option.map_eq_some_iff.mp hresponse with ⟨_, _, rfl⟩
        exact ⟨m', List.mem_cons_of_mem _ hm', rfl⟩
      case isFalse =>
        rcases ih h with ⟨m', hm', hnow⟩
        exact ⟨m', List.mem_cons_of_mem _ hm', hnow⟩

namespace Session

/-!
## The clock
-/

theorem enqueue_now (s : Session D) (k : Nat) (command : Command) :
    (s.enqueue k command).now = s.now := by
  rw [enqueue]
  split <;> rfl

theorem apply_now (s : Session D) (id : Nat) (e : Effect D) : (e.apply id s).now = s.now := by
  cases e with
  | ask k question task =>
      cases hcall : s.call? id with
      | none => rw [Effect.apply, ask, hcall]
      | some call => rw [Effect.apply, ask_eq hcall, enqueue_now, modifyCall]
  | abandon k number => exact s.enqueue_now k _
  | _ => rfl

theorem undergo_now (s : Session D) (id : Nat) (effects : List (Effect D)) :
    (s.undergo id effects).now = s.now := by
  induction effects generalizing s with
  | nil => rfl
  | cons e rest ih => exact (ih _).trans (s.apply_now id e)

theorem now_of_stepConnection {s u : Session D} {k : Nat}
    {step : Connection -> Option (Connection × Emitted)}
    (h : s.stepConnection k step = some u) :
    u.now = s.now := by
  unfold stepConnection at h
  split at h
  case h_1 => contradiction
  case h_2 c hc =>
    rcases Option.map_eq_some_iff.mp h with ⟨⟨c', e⟩, _, rfl⟩
    rcases (s.setConnection k c').emit_eq e with ⟨calls, -, heq⟩
    exact congrArg (·.now) heq

variable [FileSystem D]

theorem now_of_act {s u : Session D} {a : Action} (h : s.act a = some u) :
    u.now = s.now + (⟨s, a, u⟩ : Moment D).pause := by
  cases a with
  | begin op =>
      cases h
      rcases s.beginCall_effects op with ⟨effects, _, hafter⟩
      exact (congrArg Session.now hafter).trans (undergo_now s.addCall _ effects)
  | goOn id =>
      rcases stepCall_effects h with ⟨call, effects, _, _, rfl⟩
      exact undergo_now s id effects
  | serve k => exact now_of_stepConnection h
  | takeIn k => exact now_of_stepConnection h
  | noticeExit k => exact now_of_stepConnection h
  | expire k => exact now_of_stepConnection h
  | _ =>
      cases h
      rfl

variable {s u : Session D} {moments : List (Moment D)}

theorem Course.now_le (course : Course s moments u) :
    s.now ≤ u.now ∧ forall m, m ∈ moments -> s.now ≤ m.before.now ∧ m.before.now ≤ u.now := by
  induction course with
  | refl => exact ⟨Nat.le_refl _, by simp⟩
  | touch course disk ih => exact ih
  | @act moments t u course a ha ih =>
      have hstep : t.now ≤ u.now := now_of_act ha ▸ Nat.le_add_right _ _
      refine ⟨Nat.le_trans ih.1 hstep, fun m hm => ?_⟩
      rcases List.mem_append.mp hm with hm | hm
      · exact ⟨(ih.2 m hm).1, Nat.le_trans (ih.2 m hm).2 hstep⟩
      · rw [List.mem_singleton.mp hm]
        exact ⟨ih.1, hstep⟩

theorem Course.now_le_of_mem_times (course : Course s moments u) {happens : Moment D -> Bool}
    {t : Nat} (h : t ∈ times happens moments) : s.now ≤ t ∧ t ≤ u.now := by
  rcases mem_times.mp h with ⟨m, hm, _, rfl⟩
  exact course.now_le.2 m hm

omit [FileSystem D]

/-!
## Withdrawals
-/

def isWithdrawn (s : Session D) (id : Nat) : Bool :=
  ((s.call? id).map Call.cancelled).getD false

theorem isWithdrawn_of_call? {s : Session D} {id : Nat} {call : Call}
    (h : s.call? id = some call) :
    s.isWithdrawn id = call.cancelled := by
  rw [isWithdrawn, h]
  rfl

theorem isWithdrawn_modifyCall (s : Session D) (id j : Nat) {f : Call -> Call}
    (hf : forall call, (f call).cancelled = call.cancelled) :
    (s.modifyCall id f).isWithdrawn j = s.isWithdrawn j := by
  rw [isWithdrawn, call?_modifyCall, isWithdrawn]
  split
  · rw [Option.map_map, Function.comp_def]
    simp only [hf]
  · rfl

theorem isWithdrawn_apply (s : Session D) (id j : Nat) (e : Effect D) :
    (e.apply id s).isWithdrawn j = s.isWithdrawn j := by
  cases e with
  | rest task => exact s.isWithdrawn_modifyCall id j fun _ => rfl
  | finish outcome =>
      exact isWithdrawn_modifyCall { s with turns := s.turns.erase id } id j fun _ => rfl
  | ask k question task =>
      cases hcall : s.call? id with
      | none => rw [Effect.apply, ask, hcall]
      | some call =>
          rw [Effect.apply, ask_eq hcall, isWithdrawn, call?_enqueue, ← isWithdrawn]
          exact s.isWithdrawn_modifyCall id j fun _ => rfl
  | abandon k number => rw [Effect.apply, isWithdrawn, call?_enqueue, ← isWithdrawn]
  | _ => rfl

theorem isWithdrawn_undergo (s : Session D) (id j : Nat) (effects : List (Effect D)) :
    (s.undergo id effects).isWithdrawn j = s.isWithdrawn j := by
  induction effects generalizing s with
  | nil => rfl
  | cons e rest ih => exact (ih _).trans (s.isWithdrawn_apply id j e)

theorem isWithdrawn_addCall (s : Session D) (j : Nat) :
    s.addCall.isWithdrawn j = s.isWithdrawn j := by
  by_cases hj : s.calls.length = j
  · subst hj
    rw [isWithdrawn, isWithdrawn, call?, call?, addCall, List.getElem?_concat_length,
      List.getElem?_eq_none (Nat.le_refl _)]
    rfl
  · rw [isWithdrawn, s.addCall_call?_other hj, isWithdrawn]

theorem isWithdrawn_deliverAll (s : Session D) (answers : List (Ticket × Answer)) (j : Nat) :
    (s.deliverAll answers).isWithdrawn j = s.isWithdrawn j := by
  induction answers generalizing s with
  | nil => rfl
  | cons answer rest ih =>
      refine (ih _).trans (s.isWithdrawn_modifyCall _ j fun call => ?_)
      split <;> rfl

theorem isWithdrawn_of_stepConnection {s u : Session D} {k : Nat}
    {step : Connection -> Option (Connection × Emitted)} (h : s.stepConnection k step = some u)
    (j : Nat) : u.isWithdrawn j = s.isWithdrawn j := by
  unfold stepConnection at h
  split at h
  case h_1 => contradiction
  case h_2 c hc =>
    rcases Option.map_eq_some_iff.mp h with ⟨⟨c', e⟩, _, rfl⟩
    exact isWithdrawn_deliverAll (s.setConnection k c') e.answers j

theorem isWithdrawn_of_act [FileSystem D] {s u : Session D} {a : Action} (h : s.act a = some u)
    (j : Nat) :
    u.isWithdrawn j = (s.isWithdrawn j || (⟨s, a, u⟩ : Moment D).withdraws j) := by
  have hkept (hwithdraws : (⟨s, a, u⟩ : Moment D).withdraws j = false)
      (hsame : u.isWithdrawn j = s.isWithdrawn j) :
      u.isWithdrawn j = (s.isWithdrawn j || (⟨s, a, u⟩ : Moment D).withdraws j) := by
    rw [hwithdraws, Bool.or_false, hsame]
  cases a with
  | begin op =>
      cases h
      rcases s.beginCall_effects op with ⟨effects, _, hafter⟩
      refine hkept rfl ?_
      rw [hafter, isWithdrawn_undergo, isWithdrawn_addCall]
  | goOn id =>
      rcases stepCall_effects h with ⟨call, effects, _, _, rfl⟩
      exact hkept rfl (s.isWithdrawn_undergo id j effects)
  | cancel id =>
      cases h
      rw [isWithdrawn, call?_modifyCall, isWithdrawn, Moment.withdraws]
      cases hcall : s.call? j with
      | none => simp
      | some call =>
          by_cases hj : id = j
          · simp [hj]
          · simp [hj, beq_false_of_ne hj]
  | serve k => exact hkept rfl (isWithdrawn_of_stepConnection h j)
  | takeIn k => exact hkept rfl (isWithdrawn_of_stepConnection h j)
  | noticeExit k => exact hkept rfl (isWithdrawn_of_stepConnection h j)
  | expire k => exact hkept rfl (isWithdrawn_of_stepConnection h j)
  | _ =>
      cases h
      exact hkept rfl rfl

end Session

/-!
## Ends of connections
-/

theorem Moment.Passes.gone {m : Moment D} {k : Nat} (h : m.Passes k)
    (hgone : (exists c, m.before.connection? k = some c ∧ c.isAlive = false) ∨
      m.ends k = true) :
    exists c, m.after.connection? k = some c ∧ c.isAlive = false := by
  have hends (hends : m.ends k = true) :
      m.before.isAlive k = true ∧ m.after.isAlive k = false := by
    rwa [Moment.ends, Bool.and_eq_true, Bool.not_eq_true'] at hends
  have hexists {c : Connection} (after : m.after.connection? k = some c)
      (h : m.ends k = true) :
      exists c, m.after.connection? k = some c ∧ c.isAlive = false :=
    ⟨c, after, Session.isAlive_of_connection? after ▸ (hends h).2⟩
  rcases hgone with ⟨c, hc, hgone⟩ | hgone
  · cases h with
    | absent before after quiet => cases hc.symm.trans before
    | appears c' before after alive mark quiet => cases hc.symm.trans before
    | used b b' before after used mark quiet =>
        cases Option.some.inj (hc.symm.trans before)
        exact ⟨b', after, used.isAlive.trans hgone⟩
    | proceeds b b' e emitted before after step alive proceeds spared =>
        cases Option.some.inj (hc.symm.trans before)
        cases alive.symm.trans hgone
  · cases h with
    | absent before after quiet =>
        cases (Session.isAlive_of_absent before).symm.trans (hends hgone).1
    | appears c' before after alive mark quiet => exact hexists after hgone
    | used b b' before after used mark quiet => exact hexists after hgone
    | proceeds b b' e emitted before after step alive proceeds spared =>
        exact hexists after hgone

namespace Session

section

variable [FileSystem D] {settings : Settings} {processId : Nat} {workspace : Workspace D}
  {moments : List (Moment D)} {s : Session D}

theorem Course.isWithdrawn (course :
      Course (Session.new settings processId workspace) moments s)
    (id : Nat) : s.isWithdrawn id = moments.any (Moment.withdraws id) := by
  induction course with
  | refl => rfl
  | touch course disk ih => exact ih
  | act course a ha ih =>
      rw [isWithdrawn_of_act ha, ih, List.any_append, List.any_cons, List.any_nil,
        Bool.or_false]

theorem Course.withdrawals_eq_nil
    (course : Course (Session.new settings processId workspace) moments s) {id : Nat}
    {call : Call} (hcall : s.call? id = some call) :
    withdrawals id moments = [] <-> call.cancelled = false := by
  rw [withdrawals, times_eq_nil, ← course.isWithdrawn, isWithdrawn_of_call? hcall]

theorem Course.gone {u : Session D} (course : Course s moments u) {k : Nat}
    (h : endings k moments ≠ []) : exists c, u.connection? k = some c ∧ c.isAlive = false := by
  rw [endings, ne_eq, times_eq_nil, Bool.not_eq_false] at h
  induction course with
  | refl => contradiction
  | touch course disk ih => exact ih h
  | @act moments t u course a ha ih =>
      rw [List.any_append, Bool.or_eq_true, List.any_cons, List.any_nil, Bool.or_false] at h
      exact ((kind_of_act ha).passes k).gone (h.imp_left ih)

/-- A connection where a request waits or is unanswered has not come to its end. -/
theorem Course.endings_eq_nil
    (course : Course (Session.new settings processId workspace) moments s) {k number : Nat}
    {t : Ticket} (h : (number, t) ∈ s.queued k ∨ s.held k number = some t) :
    endings k moments = [] := by
  refine Classical.byContradiction fun hended => ?_
  rcases course.gone hended with ⟨c, hc, hgone⟩
  cases course.life k with
  | absent here silent spared => cases hc.symm.trans here
  | going b here alive quiet mark =>
      cases Option.some.inj (hc.symm.trans here)
      cases alive.symm.trans hgone
  | gone earlier m later b b' e code asker unserved split ending =>
      rcases ending.still with ⟨d, hd, hover, _⟩
      rw [queued, held, hd, Option.map_some, Option.getD_some, Connection.requests,
        hover.commands, Option.bind_some, hover.pending] at h
      rcases h with h | h <;> contradiction

end

end Session

/-!
## Prompt calls
-/

/-- Whether call `id` is prompt: time passes only while it has nothing to do, and not beyond
the end of its waiting time. -/
def Moment.isPrompt [FileSystem D] (id : Nat) (m : Moment D) : Bool :=
  m.pause == 0 || (m.before.stepCall id).isNone &&
    ((m.before.task? id).bind Session.taskDeadline?).all (m.before.now + m.pause ≤ ·)

theorem Moment.waits_of_isPrompt [FileSystem D] {m : Moment D} {id : Nat} {call : Call}
    {w : Wait}
    (h : m.isPrompt id = true) (hpause : m.pause ≠ 0) (hcall : m.before.call? id = some call)
    (hwait : call.task.wait? m.before.settings = some w) :
    (call.task.isRevocable = true -> call.cancelled = false) ∧ call.mailbox = none ∧
      m.before.now + m.pause ≤ w.deadline := by
  rw [Moment.isPrompt, beq_false_of_ne hpause, Bool.false_or, Bool.and_eq_true,
    Option.isNone_iff_eq_none, Session.stepCall, hcall, Session.task?_of_call? hcall,
    Option.bind_some, Task.deadline?_of_wait? hwait] at h
  have hrests (hgoes : call.task.isRevocable = true ∧ call.cancelled = true ∨
      call.mailbox ≠ none ∨
      w.deadline ≤ m.before.now) : False :=
    m.before.waiting_goesOn id hwait hgoes h.1
  refine ⟨fun hrevocable => ?_, ?_, of_decide_eq_true h.2⟩
  · exact Bool.eq_false_iff.mpr fun hcancelled => hrests (Or.inl ⟨hrevocable, hcancelled⟩)
  · exact Classical.byContradiction fun hmail => hrests (Or.inr (Or.inl hmail))

end LanguageClient
