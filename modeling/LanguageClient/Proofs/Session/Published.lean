import LanguageClient.Proofs.Session.OpenDocuments

/-!
# Diagnostics on record over a course

Once a connection has taken in diagnostics for a document, they stay on its record until
others come for this document or the document, if it is open, is closed. So as long as it is
not closed, the diagnostics on record are those that came last.
-/

namespace LanguageClient

variable {D : Type}

namespace Moment

def Publishes (k : Nat) (uri : String) (params : Json) (m : Moment D) : Prop :=
  m.publication? k = some params ∧ params.Names uri

def Closes (k : Nat) (uri : String) (m : Moment D) : Prop :=
  m.operation? k = some (.close uri) ∧
    exists c, m.before.connection? k = some c ∧ c.store.isOpen uri = true

/-- Of the diagnostics that connection `k` takes in for `uri`, the list is the last. -/
def LastOn (k : Nat) (uri : String) (moments : List (Moment D)) (list : List Json) : Prop :=
  exists first p rest params, moments = first ++ p :: rest ∧ p.Publishes k uri params ∧
    list = params.published ∧ forall m other, m ∈ rest -> ¬ m.Publishes k uri other

theorem lastOn_concat {k : Nat} {uri : String} {moments : List (Moment D)} {list : List Json}
    (h : LastOn k uri moments list) {m : Moment D}
    (hm : forall other, ¬ m.Publishes k uri other) :
    LastOn k uri (moments ++ [m]) list := by
  rcases h with ⟨first, p, rest, params, rfl, hp, hlist, hrest⟩
  refine ⟨first, p, rest ++ [m], params, by simp, hp, hlist, fun m' other hm' => ?_⟩
  rcases List.mem_append.mp hm' with hm' | hm'
  · exact hrest m' other hm'
  · cases List.mem_singleton.mp hm'
    exact hm other

theorem lastOn_of_publishes {k : Nat} {uri : String} {params : Json} {m : Moment D}
    (h : m.Publishes k uri params) (moments : List (Moment D)) :
    LastOn k uri (moments ++ [m]) params.published :=
  ⟨moments, m, [], params, rfl, h, rfl, fun _ _ h => absurd h List.not_mem_nil⟩

theorem dealing?_of_publication {k : Nat} {params : Json} {m : Moment D}
    (h : m.publication? k = some params) : m.dealing? k = some (.publish params) := by
  rcases Option.bind_eq_some_iff.mp h with ⟨message, hdispatched, _⟩
  have hserved : m.served? k = none := by
    rw [served?, (action_of_dispatched? hdispatched).1]
  exact dealing?_eq_some_iff.mpr (Or.inr ⟨params, operation?_of_idle hserved, h, rfl⟩)

/-- What a moment does to the diagnostics for `uri` on connection `k`,
which is `c'` after it. -/
inductive Revises (k : Nat) (uri : String) (m : Moment D) (c' : Connection) : Prop where
  | publishes (params : Json) (published : m.Publishes k uri params)
      (list : c'.store.diagnosticsOf uri = params.published)
  | keeps (c : Connection) (before : m.before.connection? k = some c)
      (alive : c.isAlive = true) (other : forall params, ¬ m.Publishes k uri params)
      (list : ¬ m.Closes k uri -> c'.store.diagnosticsOf uri = c.store.diagnosticsOf uri)
  | appears (before : m.before.connection? k = none)

end Moment

namespace Session

variable [FileSystem D]

theorem revises_of_act {s u : Session D} {a : Action} (h : s.act a = some u) {k : Nat}
    (uri : String)
    {c' : Connection} (hc' : u.connection? k = some c') (halive : c'.isAlive = true) :
    Moment.Revises k uri ⟨s, a, u⟩ c' := by
  cases hop : Moment.dealing? k (⟨s, a, u⟩ : Moment D) with
  | none =>
      rcases keepsRecord_of_act h hop hc' halive with ⟨habsent, _⟩ | ⟨c, hc, hlive, hsame⟩
      · exact .appears habsent
      · refine .keeps c hc hlive (fun params hpublishes => ?_) fun _ => by rw [hsame]
        cases hop.symm.trans (Moment.dealing?_of_publication hpublishes.1)
  | some op =>
      rcases store_of_dealing h hop with ⟨c, d, hc, hlive, hd, hstore⟩
      cases hd.symm.trans hc'
      by_cases hpublishes : exists params, Moment.Publishes k uri params (⟨s, a, u⟩ : Moment D)
      · rcases hpublishes with ⟨params, hpublication, hnames⟩
        cases hop.symm.trans (Moment.dealing?_of_publication hpublication)
        refine .publishes params ⟨hpublication, hnames⟩ ?_
        rw [hstore, RecordOperation.apply, RecordHistory.publish_of_names _ hnames]
        simp [DocumentStore.diagnosticsOf]
      · refine .keeps c hc hlive (fun params h => hpublishes ⟨params, h⟩) fun hopen => ?_
        rw [hstore, DocumentStore.diagnosticsOf, DocumentStore.diagnosticsOf,
          RecordHistory.diagnostics_apply_of_kept]
        · rintro params rfl hnames
          rcases Moment.dealing?_eq_some_iff.mp hop with ⟨op, _, heq⟩
            | ⟨_, _, hpublication, heq⟩
          · cases heq
          · cases heq
            exact hpublishes ⟨params, hpublication, hnames⟩
        · rintro rfl
          rcases Moment.dealing?_eq_some_iff.mp hop with ⟨_, hoperation, heq⟩ | ⟨_, _, _, heq⟩
          · cases heq
            exact Bool.eq_false_iff.mpr fun hisOpen => hopen ⟨hoperation, c, hc, hisOpen⟩
          · cases heq
        · rintro rfl
          rcases Moment.dealing?_eq_some_iff.mp hop with ⟨op, _, heq⟩
            | ⟨_, _, _, heq⟩ <;> cases heq

variable {settings : Settings} {processId : Nat} {workspace : Workspace D}
  {moments : List (Moment D)} {s : Session D} {k : Nat} {uri : String}

/-- Since a connection has taken in diagnostics for a document that has not been closed
since, those on record are the last ones. -/
theorem Course.lastOn (course : Course (Session.new settings processId workspace) moments s)
    {c : Connection} (hc : s.connection? k = some c) (halive : c.isAlive = true)
    {before between : List (Moment D)} {d : Moment D}
    (hsplit : moments = before ++ d :: between) {params : Json} (hd : d.Publishes k uri params)
    (hopen : forall m, m ∈ between -> ¬ m.Closes k uri) :
    Moment.LastOn k uri (d :: between) (c.store.diagnosticsOf uri) := by
  induction course generalizing c between with
  | refl => simp at hsplit
  | touch course disk ih => exact ih hc halive hsplit hopen
  | @act moments t u course a ha ih =>
      have hrevises := revises_of_act ha uri hc halive
      rcases split_of_concat hsplit with ⟨_, rfl, rfl⟩ | ⟨between, rfl, rfl⟩
      · cases hrevises with
        | publishes other published list =>
            rw [list]
            exact Moment.lastOn_of_publishes published []
        | keeps b _ _ other _ => exact absurd hd (other params)
        | appears habsent =>
            rcases store_of_dealing ha (Moment.dealing?_of_publication hd.1) with ⟨b, _, hb, _⟩
            cases habsent.symm.trans hb
      · rw [← List.cons_append]
        cases hrevises with
        | publishes other published list =>
            rw [list]
            exact Moment.lastOn_of_publishes published _
        | keeps b hb hlive other list =>
            rw [list (hopen _ (List.mem_append_right _ (List.mem_singleton.mpr rfl)))]
            exact Moment.lastOn_concat
              (ih hb hlive rfl fun m hm => hopen m (List.mem_append_left _ hm)) other
        | appears habsent =>
            have hnone :=
              List.filterMap_eq_nil_iff.mp (course.dealings_of_absent habsent) d (by simp)
            cases hnone.symm.trans (Moment.dealing?_of_publication hd.1)

end Session
end LanguageClient
