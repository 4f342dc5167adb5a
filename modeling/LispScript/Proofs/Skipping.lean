import LispScript.Proofs.Batches

/-!
# Requests that a batch passes over

A request can be unusable as the files stand at its turn: it has no path, the path leads to no file
or to one that is no text, or no path for a script can be made of it. All this is found out before
anything is done, so such a turn leaves nothing behind but an entry in the log. No step of a turn
looks at the log. So a batch goes as if its unusable requests had not been made, though whether a
request is usable can depend on the turns before it.
-/

namespace LispScript

variable {α β : Type} {target : Target} {tree : FileTree} {request : Request}
  {requests : List Request} {ws ws' : Workspace}

/-! ## Unusable requests -/

/-- Nothing can be compiled for the request as the files stand. -/
inductive Unusable (target : Target) (tree : FileTree) (request : Request) : Prop
  | noPath (missing : request.path? = none)
  | noFile (path : Path) (given : request.path? = some path)
      (notFile : ∀ content modified, tree.find? path ≠ some (.file content modified))
  | noText (path : Path) (given : request.path? = some path) (data : List UInt8) (modified : Int)
      (bytes : tree.find? path = some (.file (.bytes data) modified))
  | noName (path : Path) (given : request.path? = some path) (empty : path.name = "")
  | badSuffix (invalid : Path.isSuffix target.extension = false)

/-- A path has a content exactly if it leads to a file. -/
theorem content?_eq_some_iff {path : Path} {content : Content} :
    tree.content? path = some content ↔
      ∃ modified, tree.find? path = some (.file content modified) := by
  unfold FileTree.content?
  split
  · rename_i found modified hfind
    simp [hfind]
  · rename_i hfind
    constructor
    · intro h
      cases h
    · rintro ⟨modified, hfile⟩
      exact absurd hfile (hfind content modified)

/-- A path has no output exactly if it has no name or the suffix is not one. -/
theorem output_eq_error_iff {path : Path} {folder extension : String} :
    (∃ e, path.output folder extension = .error e) ↔
      path.name = "" ∨ Path.isSuffix extension = false := by
  unfold Path.output Path.nameWithSuffix
  cases hsuffix : Path.isSuffix extension with
  | false => simp [bind, Except.bind]
  | true =>
    by_cases hname : path.name = ""
    · simp [hname, bind, Except.bind]
    · simp [hname, bind, Except.bind, pure, Except.pure]

/-- A request that can be prepared is usable. -/
theorem usable_of_prepare {out : Path} {source : String}
    (h : prepare target tree request = .ok (out, source)) : ¬ Unusable target tree request := by
  obtain ⟨path, hpath, hsource, hout⟩ := prepare_eq_ok_iff.mp h
  obtain ⟨content, hcontent, htext⟩ := Option.bind_eq_some_iff.mp hsource
  obtain ⟨modified, hfile⟩ := content?_eq_some_iff.mp hcontent
  have hmade : ¬ ∃ e, path.output target.folder target.extension = .error e := by simp [hout]
  rw [output_eq_error_iff, not_or] at hmade
  intro hunusable
  cases hunusable with
  | noPath missing => simp [hpath] at missing
  | noFile other given notFile =>
    obtain rfl : path = other := Option.some.inj (hpath.symm.trans given)
    exact notFile content modified hfile
  | noText other given data time bytes =>
    obtain rfl : path = other := Option.some.inj (hpath.symm.trans given)
    rw [hfile] at bytes
    cases bytes
    cases htext
  | noName other given empty =>
    obtain rfl : path = other := Option.some.inj (hpath.symm.trans given)
    exact hmade.1 empty
  | badSuffix invalid => exact hmade.2 invalid

/-- A request that cannot be prepared is unusable. -/
theorem unusable_of_prepare {e : BatchError} (h : prepare target tree request = .error e) :
    Unusable target tree request := by
  cases hpath : request.path? with
  | none => exact .noPath hpath
  | some path =>
    cases hcontent : tree.content? path with
    | none =>
      refine .noFile path hpath fun content modified hfile => ?_
      rw [content?_eq_some_iff.mpr ⟨modified, hfile⟩] at hcontent
      cases hcontent
    | some content =>
      obtain ⟨modified, hfile⟩ := content?_eq_some_iff.mp hcontent
      cases content with
      | bytes data => exact .noText path hpath data modified hfile
      | text s =>
        cases hout : path.output target.folder target.extension with
        | error cause =>
          rcases output_eq_error_iff.mp ⟨cause, hout⟩ with hname | hsuffix
          · exact .noName path hpath hname
          · exact .badSuffix hsuffix
        | ok out =>
          have hsource : tree.source? path =
              some (String.ofList (Text.unifyNewlines s.toList)) := by
            rw [FileTree.source?, hcontent]
            rfl
          rw [prepare_eq_ok_iff.mpr ⟨path, hpath, hsource, hout⟩] at h
          cases h

/-- A request is unusable exactly if it cannot be prepared. -/
theorem unusable_iff :
    Unusable target tree request ↔ (prepare target tree request).isOk = false := by
  cases hprepare : prepare target tree request with
  | error e => exact iff_of_true (unusable_of_prepare hprepare) rfl
  | ok found => exact iff_of_false (usable_of_prepare hprepare) Bool.true_eq_false.mp

instance : Decidable (Unusable target tree request) :=
  decidable_of_iff _ unusable_iff.symm

/-- The turn of an unusable request only logs why. -/
theorem turn_of_unusable (h : Unusable target ws.tree request) :
    ∃ entry, turn target request ws = (none, { ws with log := ws.log ++ [entry] }) := by
  cases hprepare : prepare target ws.tree request with
  | ok found => exact absurd h (usable_of_prepare hprepare)
  | error e =>
    refine ⟨e.entry request, ?_⟩
    rw [turn, compileFile_eq, hprepare]

/-! ## Steps that do not look at the log -/

/-- Workspaces with the same files and the same session. -/
structure Workspace.Alike (ws ws' : Workspace) : Prop where
  tree_eq : ws'.tree = ws.tree
  macros_eq : ws'.macros = ws.macros

/-- A workspace is like itself. -/
theorem Workspace.Alike.refl (ws : Workspace) : ws.Alike ws :=
  ⟨rfl, rfl⟩

/-- The step goes alike in workspaces that differ in the log only. -/
def IgnoresLog (step : BatchM α) : Prop :=
  ∀ ws ws' : Workspace, ws.Alike ws' →
    (step ws').1 = (step ws).1 ∧ (step ws).2.Alike (step ws').2

namespace IgnoresLog

/-- Steps one after the other go alike if each of them does. -/
theorem bind {step : BatchM α} {next : α → BatchM β} (hstep : IgnoresLog step)
    (hnext : ∀ a, IgnoresLog (next a)) : IgnoresLog (step >>= next) := by
  intro ws ws' halike
  obtain ⟨hresult, hafter⟩ := hstep ws ws' halike
  rcases hrun : step ws with ⟨result, after⟩
  rcases hrun' : step ws' with ⟨result', after'⟩
  rw [hrun, hrun'] at hresult hafter
  obtain rfl : result' = result := hresult
  cases result' with
  | error e =>
    rw [Steps.bind_of_error hrun, Steps.bind_of_error hrun']
    exact ⟨rfl, hafter⟩
  | ok a =>
    rw [Steps.bind_of_ok hrun, Steps.bind_of_ok hrun']
    exact hnext a after after' hafter

/-- A step that only returns goes alike. -/
theorem pure (a : α) : IgnoresLog (Pure.pure a) :=
  fun _ _ halike => ⟨rfl, halike⟩

/-- So does a step on the files. -/
theorem onFiles (step : FileM α) : IgnoresLog (LispScript.onFiles step) := by
  intro ws ws' halike
  simp only [LispScript.onFiles, halike.tree_eq]
  exact ⟨rfl, rfl, halike.macros_eq⟩

/-- Compiling a text adds to the log and does not look at it. -/
theorem compile (limits : Limits) (source : String) :
    IgnoresLog (liftM (Workspace.compile limits source)) := by
  intro ws ws' halike
  have hrun (u : Workspace) :
      (liftM (Workspace.compile limits source) : BatchM Compilation) u =
        (.ok (LispScript.compile limits source u.macros).1,
          { tree := u.tree
            macros := (LispScript.compile limits source u.macros).2
            log := u.log ++ (LispScript.compile limits source u.macros).1.log }) := rfl
  rw [hrun, hrun, halike.macros_eq]
  exact ⟨rfl, halike.tree_eq, rfl⟩

/-- So does writing to the log. -/
theorem note (entries : List Log.Entry) : IgnoresLog (liftM (Workspace.note entries)) :=
  fun _ _ halike => ⟨rfl, halike.tree_eq, halike.macros_eq⟩

/-- Saving a script does not look at the log. -/
theorem saveScript (target : Target) (out : Path) (source : String) :
    IgnoresLog (LispScript.saveScript target out source) :=
  (onFiles _).bind fun _ => (compile target.limits source).bind fun _ =>
    (onFiles _).bind fun _ => (note _).bind fun _ => pure out

/-- Compiling a file does not look at the log. -/
theorem compileFile (target : Target) (request : Request) :
    IgnoresLog (LispScript.compileFile target request) := by
  intro ws ws' halike
  rw [compileFile_eq, compileFile_eq, halike.tree_eq]
  cases prepare target ws.tree request with
  | error e => exact ⟨rfl, halike⟩
  | ok found => exact saveScript target found.1 found.2 ws ws' halike

end IgnoresLog

/-- A turn gives the same path and goes alike in workspaces that are alike. -/
theorem turn_alike (target : Target) (request : Request) (halike : ws.Alike ws') :
    (turn target request ws').1 = (turn target request ws).1 ∧
      (turn target request ws).2.Alike (turn target request ws').2 := by
  obtain ⟨hresult, hafter⟩ := IgnoresLog.compileFile target request ws ws' halike
  rcases hrun : compileFile target request ws with ⟨result, after⟩
  rcases hrun' : compileFile target request ws' with ⟨result', after'⟩
  rw [hrun, hrun'] at hresult hafter
  obtain rfl : result' = result := hresult
  rw [turn, turn, hrun, hrun']
  cases result' with
  | error e => exact ⟨rfl, hafter.tree_eq, hafter.macros_eq⟩
  | ok out => exact ⟨rfl, hafter⟩

/-! ## Batches without their unusable requests -/

/-- The requests of a batch, each with the workspace that it finds at its turn. -/
def turns (target : Target) : List Request → Workspace → List (Request × Workspace)
  | [], _ => []
  | request :: requests, ws =>
    (request, ws) :: turns target requests (turn target request ws).2

/-- The requests of a batch but those that are unusable at their turn. -/
def usableRequests (target : Target) (requests : List Request) (ws : Workspace) : List Request :=
  ((turns target requests ws).filter fun t => ¬ Unusable target t.2.tree t.1).map Prod.fst

/-- Whether the first request counts is decided by the files as they stand, and the others meet what
its turn leaves. -/
theorem usableRequests_cons (request : Request) (requests : List Request) (ws : Workspace) :
    usableRequests target (request :: requests) ws =
      if Unusable target ws.tree request then
        usableRequests target requests (turn target request ws).2
      else request :: usableRequests target requests (turn target request ws).2 := by
  by_cases h : Unusable target ws.tree request
  · simp [usableRequests, turns, h]
  · simp [usableRequests, turns, h]

/-- Every request has its turn, whatever the turns before it came to. -/
theorem compileFiles_eq_turns (target : Target) (requests : List Request) (ws : Workspace) :
    compileFiles target requests ws =
      ((turns target requests ws).filterMap fun t => (turn target t.1 t.2).1,
        requests.foldl (fun ws request => (turn target request ws).2) ws) := by
  induction requests generalizing ws with
  | nil => rfl
  | cons request requests ih =>
    rw [compileFiles_cons, ih, turns, List.filterMap_cons, List.foldl_cons]
    cases (turn target request ws).1 <;> rfl

/-- A batch goes as it does without its unusable requests. -/
theorem compileFiles_usableRequests (target : Target) (requests : List Request)
    (halike : ws.Alike ws') :
    (compileFiles target (usableRequests target requests ws) ws').1 =
        (compileFiles target requests ws).1 ∧
      (compileFiles target requests ws).2.Alike
        (compileFiles target (usableRequests target requests ws) ws').2 := by
  induction requests generalizing ws ws' with
  | nil => exact ⟨rfl, halike⟩
  | cons request requests ih =>
    rw [usableRequests_cons, compileFiles_cons]
    by_cases h : Unusable target ws.tree request
    · obtain ⟨entry, hturn⟩ := turn_of_unusable h
      rw [if_pos h, hturn]
      exact ih ⟨halike.tree_eq, halike.macros_eq⟩
    · obtain ⟨hresult, hafter⟩ := turn_alike target request halike
      obtain ⟨hlater, hend⟩ := ih hafter
      rw [if_neg h, compileFiles_cons, hresult, hlater]
      exact ⟨rfl, hend⟩

/-- What a turn comes to: it gives nothing and changes no file, or it gives the path of the script
that it wrote. -/
inductive TurnOutcome (target : Target) (request : Request) (ws ws' : Workspace) :
    Option Path → Prop
  | failed (keeps : FileTree.Keeps FileTree.nowhere ws.tree ws'.tree) :
      TurnOutcome target request ws ws' none
  | written {path : Path} {source : String} {out : Path} {place : Place}
      (given : request.path? = some path) (saved : Saved target path source out place ws ws') :
      TurnOutcome target request ws ws' (some out)

/-- A turn on a path that can be spelled fails without changing a file, or it writes a script, and
the tree stays well-formed. -/
theorem turn_outcome_of_proper (target : Target)
    (hproper : ∀ path, request.path? = some path → path.Proper) (hwell : ws.tree.WellFormed) :
    TurnOutcome target request ws (turn target request ws).2 (turn target request ws).1 ∧
      (turn target request ws).2.tree.WellFormed := by
  rcases turn_cases target hproper hwell with
    ⟨hnone, hkeeps⟩ | ⟨path, source, out, place, hpath, hwritten, hsaved⟩
  · rw [hnone]
    exact ⟨.failed hkeeps, hkeeps.wellFormed⟩
  · rw [hwritten]
    exact ⟨.written hpath hsaved, hsaved.keeps.wellFormed⟩

/-- So does every turn of a batch. -/
theorem outcome_of_mem_turns
    (hproper : ∀ request ∈ requests, ∀ path, request.path? = some path → path.Proper)
    (hwell : ws.tree.WellFormed) :
    ∀ t ∈ turns target requests ws,
      TurnOutcome target t.1 t.2 (turn target t.1 t.2).2 (turn target t.1 t.2).1 := by
  induction requests generalizing ws with
  | nil => simp [turns]
  | cons request requests ih =>
    obtain ⟨hfirst, hlater⟩ := List.forall_mem_cons.mp hproper
    obtain ⟨houtcome, hwell'⟩ := turn_outcome_of_proper target hfirst hwell
    rw [turns, List.forall_mem_cons]
    exact ⟨houtcome, ih hlater hwell'⟩

/-- Unusable requests in a batch have no effect. A batch ends for every list of requests, with each
of them having its turn whatever the turns before it came to. Without the requests that are unusable
at their turn it gives the same list and leaves the same files, folders and macros. The list holds,
in order, the paths of the scripts for the turns that wrote one, and the others changed no file. -/
theorem unusable_requests_are_skipped (target : Target) (requests : List Request)
    (ws : Workspace) :
    compileFiles target requests ws =
      ((turns target requests ws).filterMap fun t => (turn target t.1 t.2).1,
        requests.foldl (fun ws request => (turn target request ws).2) ws) ∧
    ((compileFiles target (usableRequests target requests ws) ws).1 =
        (compileFiles target requests ws).1 ∧
      (compileFiles target (usableRequests target requests ws) ws).2.tree =
        (compileFiles target requests ws).2.tree ∧
      (compileFiles target (usableRequests target requests ws) ws).2.macros =
        (compileFiles target requests ws).2.macros) ∧
    (ws.tree.WellFormed →
      (∀ request ∈ requests, ∀ path, request.path? = some path → path.Proper) →
      ∀ t ∈ turns target requests ws,
        TurnOutcome target t.1 t.2 (turn target t.1 t.2).2 (turn target t.1 t.2).1) := by
  obtain ⟨hlist, halike⟩ := compileFiles_usableRequests target requests (.refl ws)
  refine ⟨compileFiles_eq_turns target requests ws, ⟨hlist, halike.tree_eq, halike.macros_eq⟩, ?_⟩
  exact fun hwell hproper => outcome_of_mem_turns hproper hwell

/-- A path that leads to no file at its first turn and to a script of the same batch at its second,
besides a missing path, a folder and a file that is no text. -/
theorem unusable_requests_are_skipped_mixed :
    let ws : Workspace :=
      { tree := ⟨[(["home"], .folder),
          (["home", "a.clj"], .file (.text "(defmacro m [] (f))") 1),
          (["home", "b.clj"], .file (.text "(m)") 2),
          (["home", "c.clj"], .file (.bytes [255]) 3)], ["home"], 9⟩
        macros := .start true, log := [] }
    let target := Target.of .usual [] none (some "")
    let requests : List Request := [.given "out/b.js", .missing, .given "a.clj", .given "c.clj",
      .given ".", .given "b.clj", .given "out/b.js"]
    let batch := compileFiles target requests ws
    let usable : List Request := [.given "a.clj", .given "b.clj", .given "out/b.js"]
    usableRequests target requests ws = usable ∧
      batch.1 = [.ofString "out/a.js", .ofString "out/b.js", .ofString "out/out/b.js"] ∧
      batch.2.tree.content? (.ofString "out/b.js") = some (.text "f();") ∧
      (compileFiles target usable ws).1 = batch.1 ∧
      (compileFiles target usable ws).2.tree = batch.2.tree ∧
      (compileFiles target usable ws).2.macros = batch.2.macros ∧
      ∀ t ∈ turns target requests ws,
        TurnOutcome target t.1 t.2 (turn target t.1 t.2).2 (turn target t.1 t.2).1 := by
  intro ws target requests batch usable
  have husable : usableRequests target requests ws = usable := by decide +kernel
  have hwell : ws.tree.WellFormed := by decide +kernel
  have hproper : ∀ request ∈ requests, ∀ path, request.path? = some path → path.Proper := by
    intro request hrequest path hpath
    cases request with
    | missing => cases hpath
    | given text =>
      cases hpath
      exact Path.proper_ofString text
    | found path => simp [requests] at hrequest
  obtain ⟨-, hsame, hturns⟩ := unusable_requests_are_skipped target requests ws
  rw [husable] at hsame
  refine ⟨husable, by decide +kernel, by decide +kernel, hsame.1, hsame.2.1, hsame.2.2, ?_⟩
  exact hturns hwell hproper

end LispScript
