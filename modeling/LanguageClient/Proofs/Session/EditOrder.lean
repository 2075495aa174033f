import LanguageClient.Proofs.Session.EditOutcomes
import LanguageClient.Proofs.Workspace.Targets

/-!
# The order of the map of a workspace edit

A map gives its URIs in any order. The files are edited in the order of their paths, so two
orders of one map come to the same, as long as the URIs that lead to one path stand in the
same order in both. Where they do not, the edits of one file are made in another order.
-/

namespace LanguageClient

namespace Session

open WorkspaceEdit

variable {D : Type} [FileSystem D]

/-- Two workspace edits come to the same: the calls begin alike, and when they have
ended, each after any course in which nobody else did anything to the workspace, they
have left the same files and the same journal and answer the same. Only what a server was
told may depend on the course. -/
structure Interchangeable (s : Session D) (e e' : WorkspaceEdit) (context : EditContext) :
    Prop where
  begins : s.beginCall (.applyWorkspaceEdit e context) =
    s.beginCall (.applyWorkspaceEdit e' context)
  ends : forall moments u outcome moments' u' outcome',
    Solo s.calls.length (s.beginCall (.applyWorkspaceEdit e context)) moments u ->
    u.outcome? s.calls.length = some outcome ->
    Solo s.calls.length (s.beginCall (.applyWorkspaceEdit e' context)) moments' u' ->
    u'.outcome? s.calls.length = some outcome' ->
    u.workspace = u'.workspace ∧
      outcome.map Value.unsynced = outcome'.map Value.unsynced

theorem interchangeable_of_targets {s : Session D} {e e' : WorkspaceEdit}
    {context : EditContext}
    (h : e.targets context = e'.targets context) : Interchangeable s e e' context := by
  have hbegins : s.beginCall (.applyWorkspaceEdit e context) =
      s.beginCall (.applyWorkspaceEdit e' context) := by
    simp only [beginCall, begin, h]
  refine ⟨hbegins, ?_⟩
  intro moments u outcome moments' u' outcome' solo hended solo' hended'
  have hedits : (Operation.applyWorkspaceEdit e context).editsFiles = true := rfl
  rcases exists_prospect s hedits with ⟨task, prospect, htask, hprospect⟩
  rw [← hbegins] at solo'
  have hend := solo.ended htask hprospect hended
  have hend' := solo'.ended htask hprospect hended'
  exact Prod.mk.inj (hend.symm.trans hend')

/-- Two orders of a map come to the same if the URIs of each path stand in the same order in
both; so they do if no two URIs lead to one path. -/
theorem applyWorkspaceEdit_mapOrder (s : Session D) (context : EditContext)
    (versioned : Option Json) {changes changes' : List (String × List TextEdit)}
    {decoded : List (Path × List TextEdit)} (hperm : changes'.Perm changes)
    (hdecodes : Decodes changes decoded) :
    exists decoded', Decodes changes' decoded' ∧ decoded'.Perm decoded ∧
      ((forall components,
          Path.atPlace components decoded' = Path.atPlace components decoded) ->
        Interchangeable s ⟨some changes', versioned⟩ ⟨some changes, versioned⟩ context) ∧
      ((decoded.map (·.1.components)).Nodup ->
        Interchangeable s ⟨some changes', versioned⟩ ⟨some changes, versioned⟩ context) := by
  rcases List.perm_comp_forall₂ hperm hdecodes with ⟨decoded', hdecodes', hperm'⟩
  have hsame (hplaces : forall components,
      Path.atPlace components decoded' = Path.atPlace components decoded) :
      Interchangeable s ⟨some changes', versioned⟩ ⟨some changes, versioned⟩ context :=
    interchangeable_of_targets
      (targets_congr ⟨some changes', versioned⟩ ⟨some changes, versioned⟩ rfl hdecodes'
        hdecodes hplaces context)
  exact ⟨decoded', hdecodes', hperm', hsame,
    fun hdistinct => hsame (Path.atPlace_of_perm hperm' hdistinct)⟩

theorem applyWorkspaceEdit_mapOrder_twoFiles :
    let first := ("file:///w/b", overwriteFirst ['y'])
    let second := ("file:///w/a", overwriteFirst ['x'])
    [second, first].Perm [first, second] ∧
      Interchangeable (writable .empty) ⟨some [second, first], none⟩
        ⟨some [first, second], none⟩ default := by
  intro first second
  have hperm : [second, first].Perm [first, second] := .swap ..
  have hdecodes : Decodes [first, second]
      [(.ofString "/w/b", first.2), (.ofString "/w/a", second.2)] := by
    refine .cons ⟨?_, rfl⟩ (.cons ⟨?_, rfl⟩ .nil) <;> decide +kernel
  rcases applyWorkspaceEdit_mapOrder (writable .empty) default none hperm hdecodes with
    ⟨decoded, -, -, -, hdistinct⟩
  exact ⟨hperm, hdistinct (by decide +kernel)⟩

/-- Two URIs of one file, one of them with a letter encoded, and a text for each. The text
of the one that comes last is what is left. -/
theorem not_independent_of_mapOrder :
    ¬ forall (s : Session Memory) (context : EditContext)
      (changes changes' : List (String × List TextEdit)),
      changes'.Perm changes -> (changes.map Prod.fst).Nodup ->
      (forall c, c ∈ changes -> (FileUri.toPath? c.1.toList).isSome = true) ->
      forall moments u outcome moments' u' outcome',
        Solo s.calls.length (s.beginCall (.applyWorkspaceEdit ⟨some changes, none⟩ context))
          moments u ->
        u.outcome? s.calls.length = some outcome ->
        Solo s.calls.length (s.beginCall (.applyWorkspaceEdit ⟨some changes', none⟩ context))
          moments' u' ->
        u'.outcome? s.calls.length = some outcome' ->
        forall p, FileSystem.read u.workspace.disk p =
        FileSystem.read u'.workspace.disk p := by
  intro h
  let disk := Memory.empty.set (.ofString "/w/f") (some (.file ['a']))
  let plain := ("file:///w/f", overwriteFirst ['x'])
  let encoded := ("file:///w/%66", overwriteFirst ['y'])
  have hlast (changes : List (String × List TextEdit)) (content : Text)
      (h : (((writable disk).beginCall (.applyWorkspaceEdit ⟨some changes, none⟩
        default)).proceed (List.replicate 8 (.goOn 0))).map
          (fun r => ((r.2.outcome? 0).isSome,
            FileSystem.read r.2.workspace.disk (Path.ofString "/w/f"))) =
        some (true, .ok (.of content))) :
      exists moments u outcome,
        Solo 0 ((writable disk).beginCall (.applyWorkspaceEdit ⟨some changes, none⟩ default))
          moments u ∧ u.outcome? 0 = some outcome ∧
        FileSystem.read u.workspace.disk (Path.ofString "/w/f") = .ok (.of content) := by
    rcases exists_solo (f := fun u => ((u.outcome? 0).isSome,
      FileSystem.read u.workspace.disk (Path.ofString "/w/f"))) h with ⟨moments, u, solo, heq⟩
    rcases Prod.mk.inj heq with ⟨hended, hread⟩
    rcases Option.isSome_iff_exists.mp hended with ⟨outcome, houtcome⟩
    exact ⟨moments, u, outcome, solo, houtcome, hread⟩
  rcases hlast [plain, encoded] ['y'] (by cbv) with ⟨moments, u, outcome, solo, hended, hread⟩
  rcases hlast [encoded, plain] ['x'] (by cbv) with
    ⟨moments', u', outcome', solo', hended', hread'⟩
  have hsame := h (writable disk) default [plain, encoded] [encoded, plain] (.swap ..)
    (by decide +kernel)
    (by decide +kernel) moments u outcome moments' u' outcome' solo hended solo'
    hended' (.ofString "/w/f")
  rw [hread, hread'] at hsame
  contradiction

end Session
end LanguageClient
