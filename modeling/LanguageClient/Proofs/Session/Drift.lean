import LanguageClient.Proofs.Session.Letters

/-!
# Connections left to themselves

Only calls bring anything to a connection. Left to itself it serves what waits there, loses
its server, comes to its end; and what it has lost it does not get back.
-/

namespace LanguageClient

namespace Connection

/-!
## Connections by themselves
-/

def isFluent (c : Connection) : Bool :=
  c.phase == .serving && c.writable

theorem isFluent_iff {c : Connection} :
    c.isFluent = true <-> c.phase = .serving ∧ c.writable = true := by
  simp [isFluent]

/-- By itself a connection gives up what it has and takes up nothing: it can serve, at most,
the commands in `served`. -/
structure Fades (served : List Command) (c c' : Connection) : Prop where
  alive : c'.isAlive = true -> c.isAlive = true
  initialized : c'.initialized = true -> c.initialized = true
  fluent : c'.isFluent = true -> c.isFluent = true ∧ c.commands = served ++ c'.commands
  kept : c'.commands ⊆ c.commands

namespace Fades

theorem refl (c : Connection) : Fades [] c c :=
  ⟨id, id, fun h => ⟨h, rfl⟩, List.Subset.refl _⟩

theorem of_stays {c c' : Connection} (h : Stays c c') : Fades [] c c' where
  alive halive := by
    rwa [isAlive, h.phase, ← isAlive] at halive
  initialized hinitialized := h.initialized ▸ hinitialized
  fluent hfluent := by
    rw [isFluent, h.phase, h.writable, ← isFluent] at hfluent
    exact ⟨hfluent, h.commands.symm⟩
  kept := h.commands ▸ List.Subset.refl _

theorem of_leaves {served : List Command} {c c' : Connection} (halive : c.isAlive = true)
    (h : Leaves c c') : Fades served c c' where
  alive _ := halive
  initialized := h.initialized
  fluent hfluent := absurd (isFluent_iff.mp hfluent).1 h.phase
  kept := h.kept

end Fades

theorem serve_fades {now : Nat} {c c' : Connection} {e : Emitted} {command : Command}
    {rest : List Command} (hphase : c.phase = .serving)
    (hcommands : c.commands = command :: rest)
    (h : serve now { c with commands := rest } command = (c', e)) : Fades [command] c c' := by
  have halive := isAlive_of_serving hphase
  have hc' : (serve now { c with commands := rest } command).1 = c' := by rw [h]
  have hstays (hstays : Stays { c with commands := rest } c') : Fades [command] c c' := by
    refine ⟨fun _ => halive, fun hinitialized => hstays.initialized ▸ hinitialized,
      fun hfluent => ?_, ?_⟩
    · rw [isFluent, hstays.phase, hstays.writable] at hfluent
      exact ⟨hfluent, by rw [hcommands, hstays.commands]; rfl⟩
    · rw [hcommands, hstays.commands]
      exact List.subset_cons_self command rest
  cases command with
  | terminate force t =>
      refine ⟨fun _ => halive, fun hinitialized => ?_, fun hfluent => ?_, ?_⟩
      · rw [← hc'] at hinitialized
        simp only [serve] at hinitialized
        split at hinitialized
        · contradiction
        · exact hinitialized
      · rw [← hc'] at hfluent
        exact absurd (isFluent_iff.mp hfluent).1 (serve_terminate now _ force t)
      · rw [← hc', hcommands]
        simp only [serve]
        split
        · exact List.nil_subset _
        · exact List.subset_cons_self _ rest
  | _ => exact hstays (hc' ▸ serve_stays now _ (by simp))

theorem Retires.fades {now : Nat} {c c' : Connection} {e : Emitted} (h : Retires now c c' e) :
    Fades [] c c' :=
  .of_leaves h.isAlive h.leaves

theorem stepInbound_fades {now : Nat} {folder : String × String} {c c' : Connection}
    {e : Emitted} (h : c.stepInbound now folder = some (c', e)) : Fades [] c c' := by
  rcases stepInbound_cases h with ⟨message, rest, _, _, _, hdispatch⟩ | ⟨_, hretires⟩
  · have hstays := dispatch_stays folder { c with inbound := rest } message
    rw [hdispatch] at hstays
    exact .of_stays
      ⟨hstays.phase, hstays.commands, hstays.writable, hstays.initialized, hstays.process⟩
  · exact hretires.fades

theorem receive_fades (c : Connection) (bytes : Bytes) : Fades [] c (c.receive bytes) := by
  unfold receive
  repeat' split
  all_goals exact .of_stays ⟨rfl, rfl, rfl, rfl, id⟩

theorem hangUp_fades (c : Connection) : Fades [] c c.hangUp := by
  unfold hangUp
  split
  all_goals exact .of_stays ⟨rfl, rfl, rfl, rfl, id⟩

theorem breakPipe_fades (c : Connection) : Fades [] c c.breakPipe :=
  ⟨id, id, fun h => absurd (isFluent_iff.mp h).2 Bool.false_ne_true, List.Subset.refl _⟩

theorem exit_fades (c : Connection) (code : Option Int) : Fades [] c (c.exit code) := by
  unfold exit
  split
  · exact .of_stays ⟨rfl, rfl, rfl, rfl, nofun⟩
  · exact .of_stays ⟨rfl, rfl, rfl, rfl, id⟩

end Connection

/-!
## Connections over a moment
-/

variable {D : Type}

namespace Moment

/-- Without a call, connection `k` only gets closer to its end. -/
def Drifts (k : Nat) (m : Moment D) : Prop :=
  m.before.connection? k = none ∧ m.after.connection? k = none ∨
    exists c c', m.before.connection? k = some c ∧ m.after.connection? k = some c' ∧
      Connection.Fades (m.served? k).toList c c'

def ofCall (m : Moment D) : Bool :=
  match m.action with
  | .begin _ | .goOn _ => true
  | _ => false

theorem drifts_of_connections {k : Nat} {m : Moment D} (hserved : m.served? k = none)
    {f : Connection -> Connection} (hf : forall c, Connection.Fades [] c (f c))
    (h : m.after.connection? k = m.before.connection? k ∨
      m.after.connection? k = (m.before.connection? k).map f) : m.Drifts k := by
  cases hc : m.before.connection? k with
  | none =>
      rw [hc, Option.map_none, or_self] at h
      exact Or.inl ⟨hc, h⟩
  | some c =>
      rw [hc, Option.map_some] at h
      rw [Drifts, hserved]
      rcases h with h | h
      · exact Or.inr ⟨c, c, hc, h, .refl c⟩
      · exact Or.inr ⟨c, f c, hc, h, hf c⟩

end Moment

namespace Session

theorem drifts_of_modify {s u : Session D} {a : Action} {j : Nat}
    {f : Connection -> Connection}
    (hf : forall c, Connection.Fades [] c (f c)) (hu : u = s.modifyConnection j f) {k : Nat}
    (hserved : Moment.served? k ⟨s, a, u⟩ = none) : Moment.Drifts k ⟨s, a, u⟩ := by
  refine Moment.drifts_of_connections hserved hf ?_
  have hconnection := s.connection?_modifyConnection j k f
  rw [← hu] at hconnection
  split at hconnection
  · exact Or.inr hconnection
  · exact Or.inl hconnection

theorem drifts_of_step {s u : Session D} {a : Action} {j : Nat}
    {step : Connection -> Option (Connection × Emitted)} (h : s.stepConnection j step = some u)
    {k : Nat} (hother : j ≠ k -> Moment.served? k ⟨s, a, u⟩ = none)
    (hfades : forall c c' e, j = k -> s.connection? k = some c -> step c = some (c', e) ->
      Connection.Fades (Moment.served? k ⟨s, a, u⟩).toList c c') :
      Moment.Drifts k ⟨s, a, u⟩ := by
  unfold stepConnection at h
  split at h
  case h_1 => contradiction
  case h_2 c hc =>
    rcases Option.map_eq_some_iff.mp h with ⟨⟨c', e⟩, hstep, hu⟩
    have hconnection := connection?_emit hc c' e k
    rw [show (s.setConnection j c').emit e = u from hu] at hconnection
    by_cases hj : j = k
    · rw [if_pos hj] at hconnection
      exact Or.inr ⟨c, c', hj ▸ hc, hconnection, hfades c c' e hj (hj ▸ hc) hstep⟩
    · rw [if_neg hj] at hconnection
      exact Moment.drifts_of_connections (hother hj) Connection.Fades.refl (Or.inl hconnection)

theorem drifts_of_act [FileSystem D] {s u : Session D} {a : Action} (h : s.act a = some u)
    (hcall : Moment.ofCall (⟨s, a, u⟩ : Moment D) = false) (k : Nat) :
    Moment.Drifts k ⟨s, a, u⟩ := by
  cases a with
  | begin op => contradiction
  | goOn id => contradiction
  | cancel id =>
      cases h
      exact Moment.drifts_of_connections rfl Connection.Fades.refl (Or.inl rfl)
  | serve j =>
      refine drifts_of_step h (fun hj => if_neg hj) fun c c' e hj hc hstep => ?_
      have hserved : Moment.served? k ⟨s, .serve j, u⟩ = c.next? := by
        rw [Moment.served?]
        simp [hj, hc]
      rw [hserved]
      rcases Connection.stepCommand_serves hstep with
        ⟨command, rest, hnext, hphase, hqueue, hserve⟩
      rw [hnext]
      exact Connection.serve_fades hphase hqueue hserve
  | takeIn j =>
      exact drifts_of_step h (fun _ => rfl) fun c c' e _ _ hstep =>
        Connection.stepInbound_fades hstep
  | noticeExit j =>
      exact drifts_of_step h (fun _ => rfl) fun c c' e _ _ hstep =>
        (Connection.stepExit_retires hstep).fades
  | expire j =>
      exact drifts_of_step h (fun _ => rfl) fun c c' e _ _ hstep =>
        (Connection.stepDeadline_retires hstep).fades
  | receive j bytes =>
      cases h
      exact drifts_of_modify (fun c => c.receive_fades bytes) rfl rfl
  | hangUp j =>
      cases h
      exact drifts_of_modify Connection.hangUp_fades rfl rfl
  | breakPipe j =>
      cases h
      exact drifts_of_modify Connection.breakPipe_fades rfl rfl
  | exit j code =>
      cases h
      exact drifts_of_modify (fun c => c.exit_fades code) rfl rfl
  | elapse ms =>
      cases h
      exact Moment.drifts_of_connections rfl Connection.Fades.refl (Or.inl rfl)

end Session
end LanguageClient
