import ApiDescriptors.Program
import ApiDescriptors.Proofs.FileTree
import ApiDescriptors.Proofs.Result

namespace ApiDescriptors.Program

open Result (mapError_eq_ok)

variable {α β : Type} {files : FileTree} {input outDir : String} {config : Option String}
  {g : Registry}

-- Parts of a command, one after the other

theorem bind_of_ok {x : Run α} {a : α} {w w' : World} (h : x w = .ok a w') (f : α → Run β) :
    (x >>= f) w = f a w' := by
  simp only [bind, EStateM.bind, h]

theorem bind_of_error {x : Run α} {failure : Failure} {w w' : World}
    (h : x w = .error failure w') (f : α → Run β) : (x >>= f) w = .error failure w' := by
  simp only [bind, EStateM.bind, h]

-- Reading

-- A part of a command that only looks at the files: it comes to what they hold for it, or fails
-- where they hold nothing, and leaves the world as it is.
def Looks (x : Run α) (P : FileTree → α → Prop) : Prop :=
  ∀ w : World,
    (∃ a, x w = .ok a w ∧ ∀ b, P w.files b ↔ b = a) ∨ (∃ e, x w = .error e w ∧ ∀ b, ¬P w.files b)

namespace Looks

variable {x : Run α} {P Q : FileTree → α → Prop}

theorem congr (h : Looks x P) (hp : ∀ files a, P files a ↔ Q files a) : Looks x Q := by
  intro w
  simpa only [hp] using h w

theorem pure (a : α) : Looks (pure a) fun _ b => b = a :=
  fun _ => .inl ⟨a, rfl, fun _ => .rfl⟩

theorem fail (failure : Failure) : Looks (Host.fail failure : Run α) fun _ _ => False :=
  fun _ => .inr ⟨failure, rfl, fun _ => id⟩

theorem bind {f : α → Run β} {R : α → FileTree → β → Prop} (h : Looks x P)
    (hf : ∀ a, Looks (f a) (R a)) :
    Looks (x >>= f) fun files b => ∃ a, P files a ∧ R a files b := by
  intro w
  obtain ⟨a, hx, hp⟩ | ⟨e, hx, hp⟩ := h w
  case inl =>
    have hb (b : β) : (∃ a', P w.files a' ∧ R a' w.files b) ↔ R a w.files b := by simp [hp]
    simpa only [hb, bind_of_ok hx] using hf a w
  case inr => exact .inr ⟨e, bind_of_error hx f, fun b ⟨a, ha, _⟩ => hp a ha⟩

theorem orFail (h : Looks x P) (b : Bool) (failure : Failure) :
    Looks (if b then x else Host.fail failure) fun files a => b = true ∧ P files a := by
  cases b
  case false => exact (fail failure).congr (by simp)
  case true  => exact h.congr (by simp)

theorem has (path : String) : Looks (Host.has path) fun files b => b = files.has path :=
  fun w => .inl ⟨w.files.has path, rfl, fun _ => .rfl⟩

theorem read? (path : String) : Looks (Host.read? path) fun files t => t = files.read? path :=
  fun w => .inl ⟨w.files.read? path, rfl, fun _ => .rfl⟩

theorem readFile (path : String) :
    Looks (readFile path) fun files text => files.read? path = some text := by
  refine ((read? path).bind (R := fun t _ text => t = some text) fun t => ?_).congr (by simp)
  cases t
  case none      => exact (fail _).congr (by simp)
  case some text => exact (pure text).congr (by simp [eq_comm])

theorem ofResult (r : Result α) : Looks (ofResult r) fun _ a => r = .ok a := by
  cases r
  case ok a    => exact (pure a).congr (by simp [eq_comm])
  case error e => exact (fail _).congr (by simp)

end Looks

-- The options of a command, as a file gives them.
inductive Configures (files : FileTree) : Option String → Options → Prop
  | default : Configures files none {}
  | file {path text : String} {o : Options} :
    files.read? path = some text → Options.ofText text = .ok o → Configures files (some path) o

-- The options and the document build a registry.
def Builds (files : FileTree) (input : String) (config : Option String) (g : Registry) : Prop :=
  ∃ o text, Configures files config o ∧ files.read? input = some text ∧
    Registry.ofText text o = .ok g

theorem looks_loadOptions (config : Option String) :
    Looks (loadOptions config) (Configures · config) := by
  cases config
  case none =>
    refine (Looks.pure ({} : Options)).congr fun files o => ?_
    exact ⟨fun ho => ho ▸ Configures.default, fun ho => by cases ho; rfl⟩
  case some path =>
    refine ((Looks.readFile path).bind fun _ => .ofResult _).congr fun files o => ?_
    simp only [mapError_eq_ok]
    refine ⟨fun ⟨_, ht, ho⟩ => .file ht ho, fun h => ?_⟩
    cases h
    case file text ht ho => exact ⟨text, ht, ho⟩

theorem looks_build (input : String) (config : Option String) :
    Looks (build input config) (Builds · input config) := by
  have hread := (looks_loadOptions config).bind fun o => (Looks.readFile input).bind fun text =>
    .ofResult (Registry.ofText text o)
  have hfound := (Looks.has input).bind fun found => hread.orFail found (.noInput input)
  refine hfound.congr fun files g => ?_
  constructor
  case mp =>
    intro ⟨_, _, _, o, ho, text, ht, hg⟩
    exact ⟨o, text, ho, ht, hg⟩
  case mpr =>
    intro ⟨o, text, ho, ht, hg⟩
    exact ⟨_, rfl, FileTree.has_of_read? ht, o, ho, text, ht, hg⟩

-- Writing

theorem isPlain_fileName : FileTree.IsPlain Manifest.fileName where
  slash    := by decide
  nonempty := by decide
  self     := by decide
  parent   := by decide

-- The path of the file that is written.
def manifestPath (outDir : String) : String :=
  FileTree.join outDir Manifest.fileName

-- Makes the directory and writes the files of a registry.
def emit (outDir : String) (g : Registry) : Run (List String) := do
  Host.makeDirectories outDir
  save outDir (Manifest.files g)

theorem save_singleton (directory name contents : String) :
    (save directory [(name, contents)] : Run (List String)) = do
      Host.makeDirectories (FileTree.parent (FileTree.join directory name))
      Host.write (FileTree.join directory name) contents
      return [FileTree.join directory name] :=
  rfl

-- Where the file cannot be created, directories may have been made, but no file is changed.
theorem emit_cases (w : World) (outDir : String) (g : Registry) :
    (w.files.Creatable outDir Manifest.fileName ∧ ∃ t,
      (w.files.makeDirectories outDir).1.write? (manifestPath outDir) (Manifest.render g) = some t ∧
      emit outDir g w = .ok [manifestPath outDir] { w with files := t }) ∨
    (¬w.files.Creatable outDir Manifest.fileName ∧ ∃ t : FileTree, t.files = w.files.files ∧
      emit outDir g w = .error .notWritten { w with files := t }) := by
  have hfiles : (w.files.makeDirectories outDir).1.files = w.files.files :=
    FileTree.files_makeAlong ..
  rw [w.files.creatable_iff isPlain_fileName outDir (Manifest.render g), ← manifestPath, emit]
  cases hm : w.files.makeDirectories outDir with | mk t made
  rw [hm] at hfiles
  cases made
  case false =>
    have hmake : (Host.makeDirectories outDir : Run Unit) w =
        .error .notWritten { w with files := t } := by simp only [Host.makeDirectories, hm]
    exact .inr ⟨nofun, t, hfiles, bind_of_error hmake _⟩
  case true =>
    have hmake : (Host.makeDirectories outDir : Run Unit) w = .ok () { w with files := t } := by
      simp only [Host.makeDirectories, hm]
    have hparent : (Host.makeDirectories (FileTree.parent (manifestPath outDir)) : Run Unit)
        { w with files := t } = .ok () { w with files := t } := by
      simp only [Host.makeDirectories, manifestPath,
        FileTree.makeDirectories_parent isPlain_fileName hm]
    rw [bind_of_ok hmake, Manifest.files, save_singleton, ← manifestPath, bind_of_ok hparent]
    cases hw : t.write? (manifestPath outDir) (Manifest.render g)
    case none =>
      have hwrite : (Host.write (manifestPath outDir) (Manifest.render g) : Run Unit)
          { w with files := t } = .error .notWritten { w with files := t } := by
        simp only [Host.write, hw]
      exact .inr ⟨by simp, t, hfiles, bind_of_error hwrite _⟩
    case some t' =>
      have hwrite : (Host.write (manifestPath outDir) (Manifest.render g) : Run Unit)
          { w with files := t } = .ok () { w with files := t' } := by
        simp only [Host.write, hw]
      exact .inl ⟨⟨rfl, t', rfl⟩, t', rfl, bind_of_ok hwrite _⟩

-- The two commands

variable {before : FileTree} {after : Outcome}

-- What a check leaves behind.
structure Checked (before : FileTree) (input : String) (config : Option String) (after : Outcome) :
    Prop where
  files : after.files = before
  exits : after.exitCode = 0 ↔ ∃ g, Builds before input config g

-- What a generation leaves behind.
structure Generated (before : FileTree) (input outDir : String) (config : Option String)
    (after : Outcome) : Prop where
  exits   : after.exitCode = 0 ↔
    (∃ g, Builds before input config g) ∧ before.Creatable outDir Manifest.fileName
  failure : after.exitCode ≠ 0 → after.files.files = before.files ∧ after.output = ""
  success : after.exitCode = 0 → ∃ g, Builds before input config g ∧
    after.files.read? (manifestPath outDir) = some (Manifest.render g) ∧
    ∀ place, after.files.contents? place ≠ before.contents? place →
      after.files.place? (manifestPath outDir) = some place

theorem Failure.exitCode_ne_zero (failure : Failure) : failure.exitCode ≠ 0 := by
  cases failure <;> nofun

theorem runCommand_of_ok {command : Command} {w : World}
    (h : (execute command : Run Unit) { files } = .ok () w) :
    runCommand files command = ⟨0, w.output, w.files⟩ := by
  rw [runCommand, h]

theorem runCommand_of_error {command : Command} {failure : Failure} {w : World}
    (h : (execute command : Run Unit) { files } = .error failure w) :
    runCommand files command = ⟨failure.exitCode, w.output, w.files⟩ := by
  rw [runCommand, h]

theorem checked_runCommand (files : FileTree) (input : String) (config : Option String) :
    Checked files input config (runCommand files (.check input config)) := by
  obtain ⟨g, hg, hb⟩ | ⟨e, he, hb⟩ := looks_build input config { files }
  case inl =>
    rw [runCommand_of_ok (bind_of_ok hg _)]
    exact ⟨rfl, iff_of_true rfl ⟨g, (hb g).mpr rfl⟩⟩
  case inr =>
    rw [runCommand_of_error (bind_of_error he _)]
    exact ⟨rfl, iff_of_false e.exitCode_ne_zero fun ⟨g, hg⟩ => hb g hg⟩

theorem Generated.failed (hn : after.exitCode ≠ 0) (hf : after.files.files = before.files)
    (ho : after.output = "")
    (h : ¬((∃ g, Builds before input config g) ∧ before.Creatable outDir Manifest.fileName)) :
    Generated before input outDir config after where
  exits     := iff_of_false hn h
  failure _ := ⟨hf, ho⟩
  success h := absurd h hn

theorem Generated.written {t : FileTree} (hb : Builds before input config g)
    (hc : before.Creatable outDir Manifest.fileName) (hx : after.exitCode = 0)
    (ht : t.files = before.files)
    (hw : t.write? (manifestPath outDir) (Manifest.render g) = some after.files) :
    Generated before input outDir config after where
  exits     := iff_of_true hx ⟨⟨g, hb⟩, hc⟩
  failure h := absurd hx h
  success _ := by
    have ⟨hr, hother⟩ := FileTree.read?_of_write? hw
    refine ⟨g, hb, hr, fun place hne => hother place ?_⟩
    rwa [FileTree.contents?, FileTree.contents?, ht]

theorem generated_runCommand (files : FileTree) (input outDir : String) (config : Option String) :
    Generated files input outDir config (runCommand files (.generate input outDir config)) := by
  obtain ⟨g, hg, hb⟩ | ⟨e, he, hb⟩ := looks_build input config { files }
  case inr =>
    rw [runCommand_of_error (bind_of_error (bind_of_error he _) _)]
    exact .failed e.exitCode_ne_zero rfl rfl fun ⟨⟨g, hg⟩, _⟩ => hb g hg
  case inl =>
    have hgenerate : (generate input outDir config : Run (List String)) { files } =
        emit outDir g { files } :=
      bind_of_ok hg _
    obtain ⟨hc, t, hw, he⟩ | ⟨hc, t, ht, he⟩ := emit_cases { files } outDir g
    case inl =>
      rw [runCommand_of_ok (bind_of_ok (hgenerate.trans he) _)]
      exact .written ((hb g).mpr rfl) hc rfl (FileTree.files_makeAlong ..) hw
    case inr =>
      rw [runCommand_of_error (bind_of_error (hgenerate.trans he) _)]
      exact .failed Failure.notWritten.exitCode_ne_zero ht rfl fun h => hc h.right

-- Whatever the files are, a command line that is accepted leaves behind what its command says.
theorem agree_of_accepted {env : CommandLine.Environment} {words : List String}
    {line : CommandLine} (h : CommandLine.ofWords? env words = some line) (files : FileTree) :
    (∀ input config, line.command = .check input config →
      Checked files input config (run env files words)) ∧
    (∀ input outDir config, line.command = .generate input outDir config →
      Generated files input outDir config (run env files words)) := by
  have hrun : run env files words = runCommand files line.command := by rw [run, h]
  rw [hrun]
  constructor
  case left  => exact fun _ _ hc => hc ▸ checked_runCommand ..
  case right => exact fun _ _ _ hc => hc ▸ generated_runCommand ..

-- Running in a directory with a document, options and another file.

def workspace : FileTree := .ofFiles [
  ("api.yaml",     "swagger: '2.0'\ndefinitions:\n  Pet:\n    type: object\n"),
  ("options.yaml", "include-unreferenced-schemas: true"),
  ("out/notes",    "kept")
]

-- The manifest of the one schema of the document.
def petManifest : String := "\n".intercalate [
  "\x7b",
  "  \"endpoints\": [],",
  "  \"serializers\": \x7b",
  "    \"#/definitions/Pet\": \x7b",
  "      \"serializer_class_name\": \"PetSerializer\",",
  "      \"name\": \"Pet\",",
  "      \"declared\": true,",
  "      \"schema\": \"#/definitions/Pet\",",
  "      \"fields\": [],",
  "      \"depends_on\": []",
  "    \x7d",
  "  \x7d,",
  "  \"individual_handlers\": []",
  "\x7d",
  ""
]

def checkWorkspace : Outcome :=
  run [("RESTGEN_CONFIG", "options.yaml")] workspace ["check", "api.yaml"]

def generateInto (outDir : String) : Outcome :=
  run [("RESTGEN_OUT_DIR", outDir), ("RESTGEN_CONFIG", "options.yaml")] workspace
    ["generate", "api.yaml"]

theorem exists_agree_workspace : ∃ g, Builds workspace "api.yaml" (some "options.yaml") g ∧
    Manifest.render g = petManifest ∧
    checkWorkspace.exitCode = 0 ∧ checkWorkspace.files = workspace ∧
    (generateInto "out").files.read? "out/descriptors.json" = some petManifest ∧
    (generateInto "out").files.read? "out/notes" = some "kept" ∧
    (generateInto "out/notes").files.files = workspace.files ∧
    ¬workspace.Creatable "out/notes" Manifest.fileName := by
  have hcheck : CommandLine.ofWords? [("RESTGEN_CONFIG", "options.yaml")] ["check", "api.yaml"] =
      some ⟨.pretty, false, .check "api.yaml" (some "options.yaml")⟩ := by decide +kernel
  have hout : CommandLine.ofWords? [("RESTGEN_OUT_DIR", "out"), ("RESTGEN_CONFIG", "options.yaml")]
      ["generate", "api.yaml"] =
      some ⟨.pretty, false, .generate "api.yaml" "out" (some "options.yaml")⟩ := by decide +kernel
  have hnotes : CommandLine.ofWords?
      [("RESTGEN_OUT_DIR", "out/notes"), ("RESTGEN_CONFIG", "options.yaml")]
      ["generate", "api.yaml"] =
      some ⟨.pretty, false, .generate "api.yaml" "out/notes" (some "options.yaml")⟩ := by
    decide +kernel
  have hdone : (generateInto "out").exitCode = 0 := by decide +kernel
  have hfailed : (generateInto "out/notes").exitCode ≠ 0 := by decide +kernel
  have htext : (generateInto "out").files.read? "out/descriptors.json" = some petManifest := by
    decide +kernel
  have hkept : (generateInto "out").files.read? "out/notes" = some "kept" := by decide +kernel
  have hcheck := (agree_of_accepted hcheck workspace).left _ _ rfl
  have hout   := (agree_of_accepted hout workspace).right _ _ _ rfl
  have hnotes := (agree_of_accepted hnotes workspace).right _ _ _ rfl
  have ⟨g, hb, hr, _⟩ := hout.success hdone
  exact ⟨g, hb, Option.some.inj (hr.symm.trans htext), hcheck.exits.mpr ⟨g, hb⟩, hcheck.files,
    htext, hkept, (hnotes.failure hfailed).left,
    fun hc => hfailed (hnotes.exits.mpr ⟨⟨g, hb⟩, hc⟩)⟩

end ApiDescriptors.Program
