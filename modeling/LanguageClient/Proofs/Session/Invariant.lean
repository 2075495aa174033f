import LanguageClient.Proofs.Session.Reactions

/-!
# What holds in every state of a run

Three invariants tie the state of a session to the record of its run. No number is used
twice. A table holds exactly the outstanding requests. And whatever a call passes on as the
content of a response, or finds in its mailbox as such, has settled a request of that call.
-/

namespace LanguageClient

theorem eq_of_nodup_filterMap {α β : Type} {key? : α -> Option β} {l : List α}
    (h : (l.filterMap key?).Nodup) {a b : α} (ha : a ∈ l) (hb : b ∈ l) {x : β}
    (hax : key? a = some x) (hbx : key? b = some x) : a = b := by
  induction l with
  | nil => exact nomatch ha
  | cons c rest ih =>
      have hrest : (rest.filterMap key?).Nodup := by
        cases hc : key? c with
        | none => rwa [List.filterMap_cons_none hc] at h
        | some y =>
            rw [List.filterMap_cons_some hc] at h
            exact (List.nodup_cons.mp h).2
      have hfresh {d : α} (hd : d ∈ rest) (hdx : key? d = some x) : key? c ≠ some x := by
        intro hc
        rw [List.filterMap_cons_some hc] at h
        exact (List.nodup_cons.mp h).1 (List.mem_filterMap.mpr ⟨d, hd, hdx⟩)
      rcases List.mem_cons.mp ha with rfl | ha' <;> rcases List.mem_cons.mp hb with rfl | hb'
      · rfl
      · exact absurd hax (hfresh hb' hbx)
      · exact absurd hbx (hfresh ha' hax)
      · exact ih hrest ha' hb'

theorem nodup_concat {α : Type} {l : List α} {a : α} (h : l.Nodup) (ha : a ∉ l) :
    (l ++ [a]).Nodup := by
  rw [List.nodup_append]
  refine ⟨h, by simp, fun b hb c hc => ?_⟩
  rw [List.mem_singleton.mp hc]
  exact fun heq => ha (heq ▸ hb)

namespace Session

variable {D : Type}

/-!
## Numbers
-/

/-- Numbers are drawn once, queued once and taken from a queue once, in this order. -/
structure Numbered (s : Session D) (log : List Happening) : Prop where
  drawn_lt : forall number, number ∈ log.filterMap Happening.drawn? -> number < s.nextNumber
  drawn_nodup : (log.filterMap Happening.drawn?).Nodup
  taken_nodup : (log.filterMap Happening.takenNumber?).Nodup
  taken_sent : forall e k number t, e ∈ log -> e.taken? = some (k, number, t) ->
    .sent t.call k number ∈ log
  queued_sent : forall k number t, (number, t) ∈ s.queued k -> .sent t.call k number ∈ log
  queued_fresh : forall k number t, (number, t) ∈ s.queued k ->
    number ∉ log.filterMap Happening.takenNumber?
  queued_nodup : forall k, ((s.queued k).map (·.1)).Nodup

namespace Numbered

variable {s u : Session D} {log : List Happening}

theorem new (settings : Settings) (processId : Nat) (workspace : Workspace D) :
    Numbered (Session.new settings processId workspace) [] where
  drawn_lt _ h := nomatch h
  drawn_nodup := List.nodup_nil
  taken_nodup := List.nodup_nil
  taken_sent _ _ _ _ h := nomatch h
  queued_sent _ _ _ h := nomatch h
  queued_fresh _ _ _ h := nomatch h
  queued_nodup _ := List.nodup_nil

theorem shrink (h : Numbered s log) (hnumber : u.nextNumber = s.nextNumber)
    (hqueue : forall k, (u.queued k).Sublist (s.queued k)) : Numbered u log where
  drawn_lt number hn := hnumber ▸ h.drawn_lt number hn
  drawn_nodup := h.drawn_nodup
  taken_nodup := h.taken_nodup
  taken_sent := h.taken_sent
  queued_sent k number t ht := h.queued_sent k number t ((hqueue k).subset ht)
  queued_fresh k number t ht := h.queued_fresh k number t ((hqueue k).subset ht)
  queued_nodup k := ((hqueue k).map _).nodup (h.queued_nodup k)

theorem note (h : Numbered s log) {e : Happening} (hdrawn : e.drawn? = none)
    (htaken : e.taken? = none) : Numbered s (log ++ [e]) := by
  have hdrawns : (log ++ [e]).filterMap Happening.drawn? = log.filterMap Happening.drawn? := by
    simp [hdrawn]
  have htakens : (log ++ [e]).filterMap Happening.takenNumber? =
      log.filterMap Happening.takenNumber? := by
    simp [Happening.takenNumber?, htaken]
  constructor
  case drawn_lt => exact hdrawns ▸ h.drawn_lt
  case drawn_nodup => exact hdrawns ▸ h.drawn_nodup
  case taken_nodup => exact htakens ▸ h.taken_nodup
  case taken_sent =>
    intro e' k number t he' ht
    rcases List.mem_append.mp he' with he' | he'
    · exact List.mem_append_left _ (h.taken_sent e' k number t he' ht)
    · rw [List.mem_singleton.mp he', htaken] at ht
      contradiction
  case queued_sent =>
    intro k number t ht
    exact List.mem_append_left _ (h.queued_sent k number t ht)
  case queued_fresh => exact htakens ▸ h.queued_fresh
  case queued_nodup => exact h.queued_nodup

theorem sent_unique (h : Numbered s log) {id id' k k' number : Nat}
    (hsent : .sent id k number ∈ log) (hsent' : .sent id' k' number ∈ log) :
    id = id' ∧ k = k' := by
  have heq := eq_of_nodup_filterMap h.drawn_nodup hsent hsent' (x := number) rfl rfl
  injection heq with hid hk
  exact ⟨hid, hk⟩

theorem take (h : Numbered s log) {k number : Nat} {t : Ticket} {rest : List (Nat × Ticket)}
    {e : Happening} (he : e.taken? = some (k, number, t))
    (hfirst : s.queued k = (number, t) :: rest) (hnumber : u.nextNumber = s.nextNumber)
    (hqueue : forall j, u.queued j = if k = j then rest else s.queued j) :
    Numbered u (log ++ [e]) := by
  have hdrawn : e.drawn? = none := by cases e <;> first | rfl | contradiction
  have hdrawns : (log ++ [e]).filterMap Happening.drawn? = log.filterMap Happening.drawn? := by
    simp [hdrawn]
  have htakens : (log ++ [e]).filterMap Happening.takenNumber? =
      log.filterMap Happening.takenNumber? ++ [number] := by
    simp [Happening.takenNumber?, he]
  have hmem : (number, t) ∈ s.queued k := hfirst ▸ List.mem_cons_self
  have hsub (j : Nat) : (u.queued j).Sublist (s.queued j) := by
    by_cases hj : k = j
    · subst hj
      rw [hqueue, if_pos rfl, hfirst]
      exact List.sublist_cons_self _ _
    · have hsame : u.queued j = s.queued j := (hqueue j).trans (if_neg hj)
      exact hsame ▸ List.Sublist.refl _
  have hrest := h.shrink hnumber hsub
  constructor
  case drawn_lt => exact hdrawns ▸ hrest.drawn_lt
  case drawn_nodup => exact hdrawns ▸ hrest.drawn_nodup
  case taken_nodup =>
    rw [htakens]
    exact nodup_concat h.taken_nodup (h.queued_fresh k number t hmem)
  case taken_sent =>
    intro e' k' number' t' he' ht'
    rcases List.mem_append.mp he' with he' | he'
    · exact List.mem_append_left _ (h.taken_sent e' k' number' t' he' ht')
    · rw [List.mem_singleton.mp he', he] at ht'
      injection ht' with ht'
      injection ht' with hk ht'
      injection ht' with hnumber' ht'
      subst hk hnumber' ht'
      exact List.mem_append_left _ (h.queued_sent k number t hmem)
  case queued_sent =>
    intro j number' t' ht
    exact List.mem_append_left _ (hrest.queued_sent j number' t' ht)
  case queued_fresh =>
    intro j number' t' ht hin
    rw [htakens] at hin
    rcases List.mem_append.mp hin with hin | hin
    · exact hrest.queued_fresh j number' t' ht hin
    · -- The number was sent to one connection only, and stood there once.
      rw [List.mem_singleton] at hin
      subst hin
      have hk := (h.sent_unique (h.queued_sent k number' t hmem)
        (hrest.queued_sent j number' t' ht)).2
      subst hk
      rw [hqueue, if_pos rfl] at ht
      have hnodup := h.queued_nodup k
      rw [hfirst, List.map_cons, List.nodup_cons] at hnodup
      exact hnodup.1 (List.mem_map.mpr ⟨(number', t'), ht, rfl⟩)
  case queued_nodup => exact hrest.queued_nodup

theorem mem_queued_of_send {id k : Nat} {received : List (Nat × Ticket)}
    (hqueue : forall j, u.queued j = s.queued j ++ if k = j then received else [])
    (hown : received = [] ∨ exists serial, received = [(s.nextNumber, ⟨id, serial⟩)])
    {j number : Nat} {t : Ticket} (ht : (number, t) ∈ u.queued j) :
    (number, t) ∈ s.queued j ∨ k = j ∧ number = s.nextNumber ∧ t.call = id := by
  rw [hqueue] at ht
  rcases List.mem_append.mp ht with ht | ht
  · exact Or.inl ht
  · by_cases hj : k = j
    · rw [if_pos hj] at ht
      rcases hown with rfl | ⟨serial, rfl⟩
      · contradiction
      · rcases Prod.mk.inj (List.mem_singleton.mp ht) with ⟨rfl, rfl⟩
        exact Or.inr ⟨hj, rfl, rfl⟩
    · rw [if_neg hj] at ht
      contradiction

theorem send (h : Numbered s log) {id k : Nat} {received : List (Nat × Ticket)}
    (hnumber : u.nextNumber = s.nextNumber + 1)
    (hqueue : forall j, u.queued j = s.queued j ++ if k = j then received else [])
    (hown : received = [] ∨ exists serial, received = [(s.nextNumber, ⟨id, serial⟩)]) :
    Numbered u (log ++ [.sent id k s.nextNumber]) := by
  have hdrawns : (log ++ [Happening.sent id k s.nextNumber]).filterMap Happening.drawn? =
      log.filterMap Happening.drawn? ++ [s.nextNumber] := by
    simp [Happening.drawn?]
  have htakens : (log ++ [Happening.sent id k s.nextNumber]).filterMap Happening.takenNumber? =
      log.filterMap Happening.takenNumber? := by
    simp [Happening.takenNumber?, Happening.taken?]
  -- Numbers that occur anywhere have been drawn before.
  have hold_drawn {call j number : Nat} (hs : .sent call j number ∈ log) :
      number < s.nextNumber :=
    h.drawn_lt number (List.mem_filterMap.mpr ⟨_, hs, rfl⟩)
  constructor
  case drawn_lt =>
    intro number hn
    rw [hdrawns] at hn
    rcases List.mem_append.mp hn with hn | hn
    · have := h.drawn_lt number hn
      omega
    · rw [List.mem_singleton.mp hn]
      omega
  case drawn_nodup =>
    rw [hdrawns]
    apply nodup_concat h.drawn_nodup
    intro hn
    exact Nat.lt_irrefl _ (h.drawn_lt _ hn)
  case taken_nodup => exact htakens ▸ h.taken_nodup
  case taken_sent =>
    intro e j number t he ht
    rcases List.mem_append.mp he with he | he
    · exact List.mem_append_left _ (h.taken_sent e j number t he ht)
    · rw [List.mem_singleton.mp he] at ht
      contradiction
  case queued_sent =>
    intro j number t ht
    rcases mem_queued_of_send hqueue hown ht with ht | ⟨rfl, rfl, rfl⟩
    · exact List.mem_append_left _ (h.queued_sent j number t ht)
    · exact List.mem_append_right _ (List.mem_singleton.mpr rfl)
  case queued_fresh =>
    intro j number t ht
    rw [htakens]
    rcases mem_queued_of_send hqueue hown ht with ht | ⟨rfl, rfl, rfl⟩
    · exact h.queued_fresh j number t ht
    · intro hin
      rcases List.mem_filterMap.mp hin with ⟨e, he, hnumber'⟩
      rcases Option.map_eq_some_iff.mp hnumber' with ⟨⟨k', number', t'⟩, htaken, hnumber'⟩
      have := hold_drawn (h.taken_sent e k' number' t' he htaken)
      simp at hnumber'
      omega
  case queued_nodup =>
    intro j
    rw [hqueue]
    by_cases hj : k = j
    · rw [if_pos hj]
      rcases hown with hown | ⟨serial, hown⟩
      · rw [hown, List.append_nil]
        exact h.queued_nodup j
      · rw [hown, List.map_append]
        apply nodup_concat (h.queued_nodup j)
        intro hin
        rcases List.mem_map.mp hin with ⟨⟨number, t⟩, ht, hnumber'⟩
        have := hold_drawn (h.queued_sent j number t ht)
        simp at hnumber'
        omega
    · rw [if_neg hj, List.append_nil]
      exact h.queued_nodup j

theorem registered_unique (h : Numbered s log) {k k' number : Nat} {t t' : Ticket}
    (hr : .registered k number t ∈ log) (hr' : .registered k' number t' ∈ log) :
    k = k' ∧ t = t' := by
  have heq := eq_of_nodup_filterMap h.taken_nodup hr hr' (x := number) rfl rfl
  injection heq with hk _ ht
  exact ⟨hk, ht⟩

end Numbered

/-!
## Tables
-/

/-- Every table holds exactly the outstanding requests of its connection. -/
def Faithful (s : Session D) (log : List Happening) : Prop :=
  forall k number t, s.held k number = some t <-> Outstanding log k number t

namespace Faithful

variable {s u : Session D} {log : List Happening}

theorem new (settings : Settings) (processId : Nat) (workspace : Workspace D) :
    Faithful (Session.new settings processId workspace) [] := by
  intro k number t
  constructor
  · intro h
    exact nomatch h
  · intro h
    exact absurd h (not_outstanding_nil k number t)

theorem taken (h : Faithful s log) {k number : Nat} {t : Ticket}
    (hheld : s.held k number = some t) :
    number ∈ log.filterMap Happening.takenNumber? :=
  List.mem_filterMap.mpr ⟨_, ((h k number t).mp hheld).registered_mem, rfl⟩

theorem note (h : Faithful s log) {e : Happening} (hregistered : e.isRegistration = false)
    (hcloses : forall k number, e.closes k number = false) : Faithful s (log ++ [e]) := by
  intro k number t
  rw [h k number t, outstanding_concat]
  constructor
  · exact fun hout => Or.inr ⟨hout, hcloses k number⟩
  · rintro (rfl | ⟨hout, _⟩)
    · contradiction
    · exact hout

theorem register (h : Faithful s log) {k number : Nat} {t : Ticket}
    (hfresh : number ∉ log.filterMap Happening.takenNumber?)
    (hheld : forall j m, u.held j m = if k = j ∧ number = m then some t else s.held j m) :
    Faithful u (log ++ [.registered k number t]) := by
  intro j m t'
  rw [hheld, outstanding_concat]
  by_cases hthis : k = j ∧ number = m
  · rcases hthis with ⟨rfl, rfl⟩
    rw [if_pos ⟨rfl, rfl⟩]
    constructor
    · intro ht
      injection ht with ht
      exact Or.inl (by rw [ht])
    · rintro (heq | ⟨hout, _⟩)
      · injection heq with _ _ ht
        rw [ht]
      · exact absurd (h.taken ((h k number t').mpr hout)) hfresh
  · rw [if_neg hthis, h j m t']
    constructor
    · exact fun hout => Or.inr ⟨hout, rfl⟩
    · rintro (heq | ⟨hout, _⟩)
      · injection heq with hk hm _
        exact absurd ⟨hk, hm⟩ hthis
      · exact hout

theorem close (h : Faithful s log) {e : Happening} (htaken : e.taken? = none)
    (hheld : forall j m, u.held j m = if e.closes j m = true then none else s.held j m) :
    Faithful u (log ++ [e]) := by
  intro j m t
  rw [hheld, outstanding_concat]
  by_cases hcloses : e.closes j m = true
  · rw [if_pos hcloses, hcloses]
    constructor
    · intro ht
      contradiction
    · rintro (rfl | ⟨_, hopen⟩)
      · contradiction
      · contradiction
  · rw [if_neg hcloses, h j m t]
    constructor
    · exact fun hout => Or.inr ⟨hout, Bool.eq_false_iff.mpr hcloses⟩
    · rintro (rfl | ⟨hout, _⟩)
      · contradiction
      · exact hout

theorem congr (h : Faithful s log)
    (hheld : forall k number, u.held k number = s.held k number) :
    Faithful u log := by
  intro k number t
  rw [hheld, h k number t]

end Faithful

/-!
## Calls
-/

/-- Calls pass on nothing as the content of a response but what has settled a request of
theirs; they send at most one request; and questions stay questions. -/
structure Honest (s : Session D) (log : List Happening) : Prop where
  senders_nodup : (log.filterMap Happening.sender?).Nodup
  content : forall id task r, s.task? id = some task -> task.carried? = some r ->
    Settled log id r
  mail : forall id a r, s.mail? id = some a -> carried? a.outcome = some r -> Settled log id r
  late : forall id k number, .sent id k number ∈ log ->
    exists task, s.task? id = some task ∧ task.isLate = true
  question : forall id op, .began id op ∈ log ->
    exists task, s.task? id = some task ∧ (op.isQuestion = true -> task.isQuestion = true)

namespace Honest

variable {s u : Session D} {log : List Happening}

theorem new (settings : Settings) (processId : Nat) (workspace : Workspace D) :
    Honest (Session.new settings processId workspace) [] where
  senders_nodup := List.nodup_nil
  content _ _ _ h := nomatch h
  mail _ _ _ h := nomatch h
  late _ _ _ h := nomatch h
  question _ _ h := nomatch h

theorem note (h : Honest s log) {e : Happening} (hcall : e.isOfCall = false) :
    Honest s (log ++ [e]) where
  senders_nodup := by
    have hsender : e.sender? = none := by
      cases e <;> first | rfl | contradiction
    have hsenders :
        (log ++ [e]).filterMap Happening.sender? = log.filterMap Happening.sender? := by
      simp [hsender]
    exact hsenders ▸ h.senders_nodup
  content id task r htask hr := (h.content id task r htask hr).append [e]
  mail id a r ha hr := (h.mail id a r ha hr).append [e]
  late id k number he := by
    rcases List.mem_append.mp he with he | he
    · exact h.late id k number he
    · rw [← List.mem_singleton.mp he] at hcall
      contradiction
  question id op he := by
    rcases List.mem_append.mp he with he | he
    · exact h.question id op he
    · rw [← List.mem_singleton.mp he] at hcall
      contradiction

theorem deliver (h : Honest s log) (htask : forall id, u.task? id = s.task? id)
    (hmail : forall id a, u.mail? id = some a -> s.mail? id = some a ∨
      forall r, carried? a.outcome = some r -> Settled log id r) : Honest u log where
  senders_nodup := h.senders_nodup
  content id task r ht hr := h.content id task r (htask id ▸ ht) hr
  mail id a r ha hr := by
    rcases hmail id a ha with ha | ha
    · exact h.mail id a r ha hr
    · exact ha r hr
  late id k number he := htask id ▸ h.late id k number he
  question id op he := htask id ▸ h.question id op he

theorem sender_mem {id : Nat} (h : id ∈ log.filterMap Happening.sender?) :
    exists k number, .sent id k number ∈ log := by
  rcases List.mem_filterMap.mp h with ⟨e, he, hid⟩
  cases e with
  | sent call k number =>
      cases hid
      exact ⟨k, number, he⟩
  | _ => contradiction

end Honest

theorem not_began_mem_sending (s : Session D) {id j : Nat} {op : Operation} :
    .began j op ∉ s.sending id := by
  unfold sending
  split <;> simp

theorem Turned.sending {id : Nat} {task : Task} {s u : Session D} (h : Turned id task s u) :
    u.sending id = task.request?.toList.map fun r => .sent id r.1 r.2 := by
  have htask : (u.call? id).map Call.task = some task := (h.task? id).trans (if_pos rfl)
  rcases Option.map_eq_some_iff.mp htask with ⟨call, hcall, rfl⟩
  simp only [Session.sending, hcall, Option.bind_some]
  cases hrequest : call.task.request? with
  | none => rfl
  | some r => rfl

theorem Turned.sent_mem_sending {id : Nat} {task : Task} {s u : Session D}
    (h : Turned id task s u) {j k number : Nat} (he : .sent j k number ∈ u.sending id) :
    id = j ∧ task.request? = some (k, number) := by
  rw [h.sending] at he
  rcases List.mem_map.mp he with ⟨r, hr, heq⟩
  injection heq with hid hk hnumber
  subst hid hk hnumber
  exact ⟨rfl, Option.mem_toList.mp hr⟩

namespace Honest

variable {s u : Session D} {log : List Happening}

theorem turn (h : Honest s log) {id : Nat} {task : Task} (hturned : Turned id task s u)
    {began : List Happening} (hbegan : forall e, e ∈ began -> exists op, e = .began id op)
    (hcontent : forall r, task.carried? = some r -> Settled log id r)
    (hlate : forall k number, .sent id k number ∈ log -> task.isLate = true ∧
      task.request? = none)
    (hquestion : forall op, .began id op ∈ log ++ began -> op.isQuestion = true ->
      task.isQuestion = true) :
    Honest u (log ++ (began ++ u.sending id)) := by
  have hown : u.task? id = some task := by
    rw [hturned.task?, if_pos rfl]
  have hother {j : Nat} (hj : id ≠ j) : u.task? j = s.task? j := by
    rw [hturned.task?, if_neg hj]
  have hbegan_senders : began.filterMap Happening.sender? = [] := by
    rw [List.filterMap_eq_nil_iff]
    intro e he
    rcases hbegan e he with ⟨op, rfl⟩
    rfl
  have hsent_cases {j k number : Nat}
      (he : .sent j k number ∈ log ++ (began ++ u.sending id)) :
      .sent j k number ∈ log ∨ id = j ∧ task.request? = some (k, number) := by
    rcases List.mem_append.mp he with he | he
    · exact Or.inl he
    rcases List.mem_append.mp he with he | he
    · rcases hbegan _ he with ⟨op, heq⟩
      contradiction
    · exact Or.inr (hturned.sent_mem_sending he)
  have hbegan_cases {j : Nat} {op : Operation}
      (he : .began j op ∈ log ++ (began ++ u.sending id)) : .began j op ∈ log ++ began := by
    rw [← List.append_assoc] at he
    rcases List.mem_append.mp he with he | he
    · exact he
    · exact absurd he u.not_began_mem_sending
  constructor
  case senders_nodup =>
    rw [List.filterMap_append, List.filterMap_append, hbegan_senders, List.nil_append,
      hturned.sending]
    cases hrequest : task.request? with
    | none =>
        simp only [Option.toList_none, List.map_nil, List.filterMap_nil, List.append_nil]
        exact h.senders_nodup
    | some r =>
        apply nodup_concat h.senders_nodup
        intro hid
        rcases sender_mem hid with ⟨k, number, hsent⟩
        have hnone := (hlate k number hsent).2
        rw [hrequest] at hnone
        contradiction
  case content =>
    intro j task' r htask hr
    by_cases hj : id = j
    · subst hj
      rw [hown] at htask
      cases htask
      exact (hcontent r hr).append _
    · rw [hother hj] at htask
      exact (h.content j task' r htask hr).append _
  case mail =>
    intro j a r ha hr
    rcases hturned.mail? j a ha with ha | rfl
    · exact (h.mail j a r ha hr).append _
    · contradiction
  case late =>
    intro j k number he
    by_cases hj : id = j
    · subst hj
      refine ⟨task, hown, ?_⟩
      rcases hsent_cases he with he | ⟨_, hrequest⟩
      · exact (hlate k number he).1
      · exact Task.isLate_of_request? hrequest
    · rcases hsent_cases he with he | ⟨hid, _⟩
      · exact hother hj ▸ h.late j k number he
      · exact absurd hid hj
  case question =>
    intro j op he
    by_cases hj : id = j
    · subst hj
      exact ⟨task, hown, hquestion op (hbegan_cases he)⟩
    · rcases List.mem_append.mp (hbegan_cases he) with he | he
      · exact hother hj ▸ h.question j op he
      · rcases hbegan _ he with ⟨op', heq⟩
        injection heq with hid _
        exact absurd hid.symm hj

end Honest

end Session
end LanguageClient
