import LanguageClient.Proofs.Session.Clocks

/-!
# The fate of a request

A request that has been sent waits in the queue of its connection, or it is unanswered
there. From one moment to the next it stays so, or it is lost before it has been written, or
it is answered, or its connection comes to its end and answers for the server, or the
connection learns that nobody waits for the answer any more. Nothing else becomes of it.
-/

namespace LanguageClient

variable {D : Type}

theorem Table.mem_of_find? {α : Type} {key : Nat} {a : α} {entries : List (Nat × α)}
    (h : Table.find? key entries = some a) : (key, a) ∈ entries := by
  induction entries with
  | nil => contradiction
  | cons entry rest ih =>
      rcases entry with ⟨n, b⟩
      rw [Table.find?] at h
      split at h
      case isTrue hn =>
        cases h
        exact hn ▸ List.mem_cons_self
      case isFalse => exact List.mem_cons_of_mem _ (ih h)

/-- Request `number` stands under ticket `t` in the queue of connection `k` or among its
unanswered requests. -/
def Session.Pending (s : Session D) (k number : Nat) (t : Ticket) : Prop :=
  (number, t) ∈ s.queued k ∨ s.held k number = some t

def Failure.isEnding : Failure -> Bool
  | .serverStopped | .serverExited _ => true
  | _ => false

theorem Connection.isEnding_endError (c : Connection) (code : Option Int) :
    (c.endError code).isEnding = true := by
  rw [endError]
  split <;> rfl

namespace Moment

theorem served_of_abandoned {k number : Nat} {m : Moment D}
    (hmem : .abandoned k number ∈ m.happenings) : m.served? k = some (.abandon number) := by
  cases explains hmem with
  | call ofCall => contradiction
  | ended j eq => contradiction
  | heard j message dispatched heard =>
      unfold Connection.heard at heard
      repeat' split at heard
      all_goals simp at heard
  | served j c command before served meaning =>
      cases command with
      | request n method params t =>
          rw [Command.meaning, List.mem_singleton] at meaning
          split at meaning <;> contradiction
      | abandon n =>
          cases List.mem_singleton.mp meaning
          exact served
      | _ => contradiction

/-- What becomes of a pending request at a moment. -/
inductive Fate (k number : Nat) (t : Ticket) (m : Moment D) : Prop where
  | pending (pending : m.after.Pending k number t)
  /-- It leaves the queue without having been written. -/
  | lost (queued : (number, t) ∈ m.before.queued k) (bygone : Session.Bygone k number m.after)
      (unwritten : forall t', .registered k number t' ∉ m.happenings)
  | answered (r : Response) (held : m.before.held k number = some t)
      (heard : m.hears? k number = some r) (answers : (t, .ofResponse r) ∈ m.answers)
  | ended (failure : Failure) (ends : m.ends k = true) (ending : failure.isEnding = true)
      (answers : (t, .response (.error failure)) ∈ m.answers)
  | abandoned (served : m.served? k = some (.abandon number))

end Moment

namespace Session

theorem Numbered.drawn_of_queued {s : Session D} {log : List Happening} (h : Numbered s log)
    {k number : Nat} {t : Ticket} (ht : (number, t) ∈ s.queued k) : number < s.nextNumber :=
  h.drawn_lt number (List.mem_filterMap.mpr ⟨_, h.queued_sent k number t ht, rfl⟩)

section

variable {m : Moment D} {log : List Happening} {k number : Nat} {t : Ticket}
    {c c' : Connection}
  {e : Emitted} (hsound : Sound m.before log) (hemitted : m.emitted? = some (k, e))
  (hmoved : Moved k c c' e.answers m.before m.after)

include hsound hmoved

theorem fate_of_queued (ht : (number, t) ∈ c.requests)
    (hmoves : Connection.Moves k c c' m.happenings e.answers) : m.Fate k number t := by
  have hbefore : (number, t) ∈ m.before.queued k := hmoved.queued_before ▸ ht
  have hqueued (ht : (number, t) ∈ c'.requests) : m.Fate k number t :=
    .pending (Or.inl (by rwa [hmoved.queued, if_pos rfl]))
  have hlost (hnone : forall t', (number, t') ∉ c'.requests)
      (htable : c'.pending.get? number = none)
      (hunwritten : forall t', .registered k number t' ∉ m.happenings) :
      m.Fate k number t := by
    refine .lost hbefore ⟨?_, fun t' => ?_, ?_⟩ hunwritten
    · exact hmoved.nextNumber ▸ hsound.numbered.drawn_of_queued hbefore
    · rw [hmoved.queued, if_pos rfl]
      exact hnone t'
    · rw [hmoved.held, if_pos rfl, htable]
  generalize hrecord : m.happenings = happenings at hmoves hlost
  generalize e.answers = answers at hmoves hmoved
  cases hmoves with
  | still queue table plain => exact hqueued (queue ▸ ht)
  | @register n t' queue table =>
      rw [queue] at ht
      rcases List.mem_cons.mp ht with hfirst | hrest
      · cases hfirst
        exact .pending (Or.inr (by rw [hmoved.held, if_pos rfl, table, if_pos rfl]))
      · exact hqueued hrest
  | @fail n t' a queue table plain =>
      rw [queue] at ht
      rcases List.mem_cons.mp ht with hfirst | hrest
      · cases hfirst
        refine hlost (fun t' ht' => ?_) (by rw [table, if_pos rfl]) (by simp)
        -- The number stood in the queue once.
        have hnodup := hsound.numbered.queued_nodup k
        rw [hmoved.queued_before, queue, List.map_cons, List.nodup_cons] at hnodup
        exact hnodup.1 (List.mem_map.mpr ⟨_, ht', rfl⟩)
      · exact hqueued hrest
  | refuse queue taken =>
      rw [Table.contains, (hsound.not_held_of_queued hmoved queue).2] at taken
      contradiction
  | abandon queue table => exact hqueued (queue ▸ ht)
  | answer queue table own heard => exact hqueued (queue ▸ ht)
  | finish queue table plain gone =>
      refine hlost (fun t' ht' => ?_) (table number) (by simp)
      rw [queue] at ht'
      contradiction

include hemitted

theorem fate_of_held (ht : c.pending.get? number = some t)
    (hmoves : Connection.Moves k c c' m.happenings e.answers)
    (hproceeds : Connection.Proceeds m.before.now c c' e) : m.Fate k number t := by
  have hbefore : m.before.held k number = some t := by rw [hmoved.held_before, ht]
  have hheld (ht : c'.pending.get? number = some t) : m.Fate k number t :=
    .pending (Or.inr (by rw [hmoved.held, if_pos rfl, ht]))
  have hanswers : m.answers = e.answers := by rw [Moment.answers, hemitted]
  -- A request that leaves the queue is another one.
  have hother {n : Nat} {t' : Ticket} (queue : c.requests = (n, t') :: c'.requests) :
      n ≠ number := by
    rintro rfl
    cases (hsound.not_held_of_queued hmoved queue).2.symm.trans ht
  generalize hrecord : m.happenings = happenings at hmoves
  generalize hall : e.answers = answers at hmoves hanswers
  cases hmoves with
  | still queue table plain => exact hheld (by rw [table, ht])
  | register queue table => exact hheld (by rw [table, if_neg (hother queue), ht])
  | fail queue table plain => exact hheld (by rw [table, if_neg (hother queue), ht])
  | refuse queue taken =>
      rw [Table.contains, (hsound.not_held_of_queued hmoved queue).2] at taken
      contradiction
  | @abandon n queue table =>
      by_cases hn : n = number
      · subst hn
        exact .abandoned (Moment.served_of_abandoned (hrecord ▸ List.mem_singleton_self _))
      · exact hheld (by rw [table, if_neg hn, ht])
  | @answer n r answers queue table own heard =>
      by_cases hn : n = number
      · subst hn
        exact .answered r hbefore
          (Moment.hears?_of_answered (hrecord ▸ List.mem_singleton_self _))
          (hanswers ▸ heard t ht)
      · exact hheld (by rw [table, if_neg hn, ht])
  | finish queue table plain gone =>
      cases hproceeds with
      | goesOn alive stopping events tickets => cases alive.symm.trans gone
      | ends code asker unserved h =>
          have hends : m.ends k = true := by
            rw [Moment.ends, isAlive_of_connection? hmoved.before, h.alive,
              isAlive_of_connection? hmoved.after, gone]
            rfl
          refine .ended (c.endError code) hends (c.isEnding_endError code) ?_
          rw [hanswers, ← hall]
          exact h.failed_mem (Table.mem_of_find? ht)

end

/-- Whatever happens at a moment, one of these becomes of a pending request. -/
theorem Pending.fate {m : Moment D} {log : List Happening} {k number : Nat} {t : Ticket}
    (h : m.before.Pending k number t) (hsound : Sound m.before log) (hdeals : m.Deals) :
    m.Fate k number t := by
  cases hdeals with
  | advances j c c' e emitted moved moves proceeds after kept =>
      by_cases hj : j = k
      · subst hj
        rw [Pending, moved.queued_before, moved.held_before] at h
        rcases h with ht | ht
        · exact fate_of_queued hsound moved ht moves
        · exact fate_of_held hsound emitted moved ht moves proceeds
      · exact .pending (by rwa [Pending, moved.queued, moved.held, if_neg hj, if_neg hj])
  | turns id task quiet action turned others kept =>
      rw [Pending, ← turned.held] at h
      refine .pending (h.imp_left fun ht => ?_)
      cases turned.sends with
      | nothing request nextNumber queued => exact queued k ▸ ht
      | request j received request nextNumber queued own =>
          rw [queued]
          exact List.mem_append_left _ ht
  | rests quiet nextNumber queued held calls =>
      exact .pending (by rwa [Pending, queued, held])

end Session
end LanguageClient
