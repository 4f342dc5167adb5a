import LispScript.Batch
import LispScript.Proofs.Trees

/-!
# Compiling one file after the other

A turn of a batch reads a file, compiles it in the session as it stands, and writes its script. A
turn that fails may have made folders and compiled the source, but has changed no file. A turn that
succeeds has changed no file but its script, so later turns find everything else as it was.
-/

namespace LispScript

variable {target : Target} {ws ws' : Workspace}

/-! ## One turn -/

/-- Compiles a source and writes its script to a path. -/
def saveScript (target : Target) (out : Path) (source : String) : BatchM Path := do
  onFiles (FileTree.makeFolders out.parent)
  let compiled ← Workspace.compile target.limits source
  onFiles (FileTree.writeText out (withHeader target.header compiled.text))
  Workspace.note [⟨.info, "Saved " ++ out.text⟩]
  return out

/-- The source text that a path leads to. -/
def FileTree.source? (tree : FileTree) (p : Path) : Option String :=
  (tree.content? p).bind Content.source?

/-- What is known of a request before anything is done for it: the path of its script and the
source, or why there is none. -/
def prepare (target : Target) (tree : FileTree) (request : Request) :
    Except BatchError (Path × String) := do
  let some path := request.path? | throw .missingPath
  let some content := tree.content? path | throw (.notFile path)
  let some source := content.source? | throw .notText
  match path.output target.folder target.extension with
  | .ok out => return (out, source)
  | .error e => throw (.badName e)

theorem throw_ne_ok {ε α : Type} (e : ε) (a : α) : (throw e : Except ε α) ≠ .ok a := by
  intro h
  cases h

/-- A request is prepared if its path leads to a source and has a path for the script. -/
theorem prepare_eq_ok_iff {tree : FileTree} {request : Request} {out : Path} {source : String} :
    prepare target tree request = .ok (out, source) ↔
      ∃ path, request.path? = some path ∧ tree.source? path = some source ∧
        path.output target.folder target.extension = .ok out := by
  unfold prepare FileTree.source?
  cases request.path? with
  | none => simp [throw_ne_ok]
  | some path =>
    simp only [Option.some.injEq, exists_eq_left']
    cases tree.content? path with
    | none => simp [throw_ne_ok]
    | some content =>
      simp only [Option.bind_some]
      cases content.source? with
      | none => simp [throw_ne_ok]
      | some text =>
        cases path.output target.folder target.extension with
        | error e => simp [throw_ne_ok]
        | ok found => simp [pure, Except.pure, and_comm]

/-- A turn fails at once if the request cannot be prepared, and saves the script otherwise. -/
theorem compileFile_eq (target : Target) (request : Request) (ws : Workspace) :
    compileFile target request ws =
      match prepare target ws.tree request with
      | .error e => (.error e, ws)
      | .ok (out, source) => saveScript target out source ws := by
  unfold compileFile prepare
  cases request.path? with
  | none => rfl
  | some path =>
    dsimp only
    rw [Steps.get_bind]
    cases ws.tree.content? path with
    | none => rfl
    | some content =>
      dsimp only
      cases content.source? with
      | none => rfl
      | some source =>
        dsimp only
        cases path.output target.folder target.extension <;> rfl

/-- A turn fails at once, or there is a source to compile and a path for its script. -/
theorem compileFile_cases (target : Target) (request : Request) (ws : Workspace) :
    (∃ e, compileFile target request ws = (.error e, ws)) ∨
      ∃ path source out, request.path? = some path ∧ ws.tree.source? path = some source ∧
        path.output target.folder target.extension = .ok out ∧
        compileFile target request ws = saveScript target out source ws := by
  rw [compileFile_eq]
  cases hprepare : prepare target ws.tree request with
  | error e => exact .inl ⟨e, rfl⟩
  | ok found =>
    obtain ⟨out, source⟩ := found
    obtain ⟨path, hpath, hsource, hout⟩ := prepare_eq_ok_iff.mp hprepare
    exact .inr ⟨path, source, out, hpath, hsource, hout, rfl⟩

/-- A turn that wrote the script of the source at `path` to `out`, which leads to `place`. -/
structure Saved (target : Target) (path : Path) (source : String) (out : Path) (place : Place)
    (ws ws' : Workspace) : Prop where
  source_eq : ws.tree.source? path = some source
  output_eq : path.output target.folder target.extension = .ok out
  macros_eq : ws'.macros = (compile target.limits source ws.macros).2
  place_eq : ws'.tree.place out = .ok place
  content_eq : ∃ modified, ws'.tree.entry? place = some (.file
    (.text (withHeader target.header (compile target.limits source ws.macros).1.text)) modified)
  keeps : FileTree.Keeps (· = place) ws.tree ws'.tree

/-- A step on the files changes nothing but the files, and its error becomes one of the batch. -/
theorem onFiles_apply {α : Type} {step : FileM α} {result : Except FileError α} {tree : FileTree}
    (h : step ws.tree = (result, tree)) :
    onFiles step ws = (result.mapError .file, { ws with tree }) := by
  rw [onFiles, h]

/-- The steps of a turn: make the folders, compile, write. -/
theorem saveScript_cases (target : Target) {out : Path} (hout : out.Proper) (source : String)
    (hwell : ws.tree.WellFormed) :
    (∃ e, (saveScript target out source ws).1 = .error e ∧
      FileTree.Keeps FileTree.nowhere ws.tree (saveScript target out source ws).2.tree) ∨
    ((saveScript target out source ws).1 = .ok out ∧
      (saveScript target out source ws).2.macros = (compile target.limits source ws.macros).2 ∧
      ∃ place, (saveScript target out source ws).2.tree.place out = .ok place ∧
        FileTree.Keeps (· = place) ws.tree (saveScript target out source ws).2.tree ∧
        ∃ modified, FileTree.entry? (saveScript target out source ws).2.tree place =
          some (.file (.text (withHeader target.header
            (compile target.limits source ws.macros).1.text)) modified)) := by
  have hfolders := FileTree.makeFolders_keeps hout.parent hwell
  unfold saveScript
  cases hmake : FileTree.makeFolders out.parent ws.tree with
  | mk made tree =>
    rw [hmake] at hfolders
    cases made with
    | error e =>
      rw [Steps.bind_of_error (onFiles_apply hmake)]
      exact .inl ⟨_, rfl, hfolders⟩
    | ok _ =>
      -- compiling never fails, and it is done before the script is written
      rw [Steps.bind_of_ok (onFiles_apply hmake)]
      let compiled := (compile target.limits source ws.macros).1
      let after : Workspace :=
        { tree
          macros := (compile target.limits source ws.macros).2
          log := ws.log ++ compiled.log }
      have hcompile : (liftM (Workspace.compile target.limits source) : BatchM Compilation)
          { ws with tree } = (.ok compiled, after) := rfl
      rw [Steps.bind_of_ok hcompile]
      cases hwrite : FileTree.writeText out (withHeader target.header compiled.text) tree with
      | mk written tree' =>
        have hfiles : onFiles (FileTree.writeText out (withHeader target.header compiled.text))
            after = (written.mapError .file, { after with tree := tree' }) := onFiles_apply hwrite
        cases written with
        | error e =>
          rw [Steps.bind_of_error hfiles]
          refine .inl ⟨_, rfl, ?_⟩
          rw [FileTree.writeText_error hwrite]
          exact hfolders
        | ok _ =>
          rw [Steps.bind_of_ok hfiles]
          obtain ⟨place, hplace, hkeeps, hcontent⟩ :=
            FileTree.writeText_keeps hout hfolders.wellFormed hwrite
          have hboth := (hfolders.mono fun _ hno => hno.elim).trans hkeeps
          exact .inr ⟨rfl, rfl, place, hplace, hboth, hcontent⟩

/-- A turn fails without a change of a file, or it writes a script. -/
theorem compileFile_outcome {request : Request}
    (hproper : ∀ path, request.path? = some path → path.Proper) (hwell : ws.tree.WellFormed)
    {result : Except BatchError Path} (hrun : compileFile target request ws = (result, ws')) :
    (∃ e, result = .error e ∧ FileTree.Keeps FileTree.nowhere ws.tree ws'.tree) ∨
      ∃ path source out place, request.path? = some path ∧ result = .ok out ∧
        Saved target path source out place ws ws' := by
  rcases compileFile_cases target request ws with
    ⟨e, hfail⟩ | ⟨path, source, out, hpath, hsource, hout, hsave⟩
  · rw [hfail] at hrun
    obtain ⟨rfl, rfl⟩ := Prod.mk.inj hrun
    exact .inl ⟨e, rfl, .refl hwell⟩
  · rw [hsave] at hrun
    have houtProper := (hproper path hpath).output hout
    rcases saveScript_cases target houtProper source hwell with
      ⟨e, hresult, hkeeps⟩ | ⟨hresult, hmacros, place, hplace, hkeeps, hcontent⟩
    · rw [hrun] at hresult hkeeps
      exact .inl ⟨e, hresult, hkeeps⟩
    · rw [hrun] at hresult hmacros hplace hkeeps hcontent
      exact .inr ⟨path, source, out, place, hpath, hresult,
        ⟨hsource, hout, hmacros, hplace, hcontent, hkeeps⟩⟩

/-! ## All turns -/

/-- A turn of a batch: the path of the script if it was written, and the workspace. -/
def turn (target : Target) (request : Request) (ws : Workspace) : Option Path × Workspace :=
  match compileFile target request ws with
  | (.ok out, ws') => (some out, ws')
  | (.error e, ws') => (none, { ws' with log := ws'.log ++ [e.entry request] })

/-- A turn changes no file, or it writes a script. -/
theorem turn_cases (target : Target) {request : Request}
    (hproper : ∀ path, request.path? = some path → path.Proper) (hwell : ws.tree.WellFormed) :
    ((turn target request ws).1 = none ∧
      FileTree.Keeps FileTree.nowhere ws.tree (turn target request ws).2.tree) ∨
      ∃ path source out place, request.path? = some path ∧ (turn target request ws).1 = some out ∧
        Saved target path source out place ws (turn target request ws).2 := by
  unfold turn
  cases hrun : compileFile target request ws with
  | mk result ws' =>
    rcases compileFile_outcome hproper hwell hrun with
      ⟨e, rfl, hkeeps⟩ | ⟨path, source, out, place, hpath, rfl, hsaved⟩
    · exact .inl ⟨rfl, hkeeps⟩
    · exact .inr ⟨path, source, out, place, hpath, rfl, hsaved⟩

/-- The turn of a file that was found. -/
theorem turn_outcome (target : Target) {p : Path} (hp : p.Proper) (hwell : ws.tree.WellFormed) :
    ((turn target (.found p) ws).1 = none ∧
      FileTree.Keeps FileTree.nowhere ws.tree (turn target (.found p) ws).2.tree) ∨
      ∃ source out place, (turn target (.found p) ws).1 = some out ∧
        Saved target p source out place ws (turn target (.found p) ws).2 := by
  have hproper : ∀ path, (Request.found p).path? = some path → path.Proper := by
    rintro path ⟨⟩
    exact hp
  rcases turn_cases target hproper hwell with
    hfailed | ⟨path, source, out, place, hpath, hwritten, hsaved⟩
  · exact .inl hfailed
  · obtain rfl : p = path := Option.some.inj hpath
    exact .inr ⟨source, out, place, hwritten, hsaved⟩

/-- A batch takes its turns from the front: the first request in the workspace as it is, the others
in what its turn leaves. -/
theorem compileFiles_cons (request : Request) (requests : List Request) :
    compileFiles target (request :: requests) ws =
      ((turn target request ws).1.toList ++
          (compileFiles target requests (turn target request ws).2).1,
        (compileFiles target requests (turn target request ws).2).2) := by
  cases hrun : compileFile target request ws with
  | mk result ws' =>
    have hbind (next : Except BatchError Path → StateM Workspace (List Path)) :
        ((compileFile target request).run >>= next : StateM Workspace (List Path)) ws =
          next result ws' := by
      change next (compileFile target request ws).1 (compileFile target request ws).2 = _
      rw [hrun]
    rw [compileFiles, hbind, turn, hrun]
    cases result <;> rfl

/-- A batch in two parts does the second part in the workspace that the first one leaves. -/
theorem compileFiles_append (front back : List Request) :
    compileFiles target (front ++ back) ws =
      ((compileFiles target front ws).1 ++
          (compileFiles target back (compileFiles target front ws).2).1,
        (compileFiles target back (compileFiles target front ws).2).2) := by
  induction front generalizing ws with
  | nil => rfl
  | cons request front ih =>
    rw [List.cons_append, compileFiles_cons, compileFiles_cons, ih, List.append_assoc]

/-- A batch changes no file but at the places that the paths of its scripts lead to. -/
theorem compileFiles_keeps {written : Place → Prop} {paths : List Path}
    (hproper : ∀ p ∈ paths, p.Proper) (hwell : ws.tree.WellFormed)
    (hwritten : ∀ p ∈ paths, ∀ out, p.output target.folder target.extension = .ok out →
      ∀ other tree place, FileTree.Keeps other ws.tree tree → tree.place out = .ok place →
        written place) :
    FileTree.Keeps written ws.tree (compileFiles target (paths.map .found) ws).2.tree := by
  induction paths generalizing ws with
  | nil => exact .refl hwell
  | cons p paths ih =>
    rw [List.forall_mem_cons] at hproper hwritten
    have hturn : FileTree.Keeps written ws.tree (turn target (.found p) ws).2.tree := by
      rcases turn_outcome target hproper.1 hwell with
        ⟨-, hkeeps⟩ | ⟨source, out, place, -, hsaved⟩
      · exact hkeeps.mono fun _ hno => hno.elim
      · have hplace := hwritten.1 out hsaved.output_eq _ _ place hsaved.keeps hsaved.place_eq
        exact hsaved.keeps.mono fun _ hsame => hsame ▸ hplace
    rw [List.map_cons, compileFiles_cons]
    refine hturn.trans (ih hproper.2 hturn.wellFormed ?_)
    intro later hlater out hout other tree place hkeeps
    exact hwritten.2 later hlater out hout _ tree place
      ((hturn.mono fun _ => Or.inl).trans (hkeeps.mono fun _ => Or.inr))

end LispScript
