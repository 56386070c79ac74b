import MarkupScript.CommandLine.Run
import MarkupScript.Proofs.CommandLine.Files

/-!
# The input of a build

A build refuses to write to a path that is alike to the path of its input. Paths that are not alike
may lead to one file all the same: `x` and `./x` do, and in a directory `/d` also `/d/x` and `../d/x`.
So the input of a build keeps its content unless the output is given and is such a path; then it is
replaced by what was compiled. The default output is never such a path.
-/

namespace MarkupScript.CommandLine

/-- What the arguments come to, and the machine after it. -/
def runOn (arguments : List String) (m : Machine) : Outcome × Machine :=
  (run Files.access arguments).run m

/-- What the content of a file is compiled to, if it can be compiled. -/
def compiledFrom (content : ByteArray) (options : Options) : Option Compiled := do
  let source ← String.fromUTF8? content
  (compile source options).toOption

/-- Whether a given output leads to the place of the input by a path that is not alike. -/
def Respells (m : Machine) (path : String) (out : Option String) : Prop :=
  ∃ output ∈ out, (Path.ofString output).alike (Path.ofString path) = false ∧
    m.follow output = m.follow path

/-! ### The steps of a build -/

theorem run_bind_of_run {σ α β : Type} {x : StateM σ α} {f : α → StateM σ β} {s s' : σ} {a : α}
    (h : x.run s = (a, s')) : (x >>= f).run s = (f a).run s' := by
  rw [StateT.run_bind, h]
  rfl

variable {m : Machine} {path : String} {content : ByteArray}

theorem run_readSource (h : m.find? path = some (.file content)) :
    ∃ result, (readSource Files.access path).run m = (result, m) ∧
      result.toOption = String.fromUTF8? content := by
  have hread : (Files.access.read path).run m = (m.read path, m) := rfl
  rw [readSource, run_bind_of_run hread, Machine.read, h]
  simp only
  cases String.fromUTF8? content with
  | none => exact ⟨_, rfl, rfl⟩
  | some source => exact ⟨_, rfl, rfl⟩

/-- Compiling a file leaves the machine as it is. -/
theorem run_compileFile (h : m.find? path = some (.file content)) (options : Options) :
    ∃ result, (compileFile Files.access path options).run m = (result, m) ∧
      result.toOption = compiledFrom content options := by
  obtain ⟨source, hread, hsource⟩ := run_readSource h
  rw [compileFile, run_bind_of_run hread, compiledFrom, ← hsource]
  cases source with
  | error report => exact ⟨_, rfl, rfl⟩
  | ok source =>
    simp only
    cases hcompile : compile source options with
    | error e => exact ⟨_, rfl, by simp [Except.toOption, hcompile]⟩
    | ok compiled => exact ⟨_, rfl, by simp [Except.toOption, hcompile]⟩

theorem run_write (m : Machine) (text code : String) : (Files.access.write text code).run m =
    match m.write text code with
    | .ok m' => (.ok (), m')
    | .error e => (.error e, m) := by
  have hget : (get : StateM Machine Machine).run m = (m, m) := rfl
  rw [Files.access]
  simp only
  rw [run_bind_of_run hget]
  cases m.write text code <;> rfl

/-- What a build writes, and where: nothing, if it fails. -/
inductive Builds (m : Machine) (path output : String) (compiled : Option Compiled) :
    Outcome → Machine → Prop where
  | uncompiled (reports : List String) (h : compiled = none) :
    Builds m path output compiled (.failure reports) m
  | refused (reports : List String)
    (h : (Path.ofString output).alike (Path.ofString path) = true) :
    Builds m path output compiled (.failure reports) m
  | unwritten (reports : List String) (c : Compiled) {e : FileError} (h : compiled = some c)
    (hwrite : m.write output c.code = .error e) :
    Builds m path output compiled (.failure reports) m
  | written (reports : List String) (c : Compiled) {m' : Machine} (h : compiled = some c)
    (halike : (Path.ofString output).alike (Path.ofString path) = false)
    (hwrite : m.write output c.code = .ok m') :
    Builds m path output compiled (.success reports) m'

theorem builds_run (h : m.find? path = some (.file content)) (out : Option String)
    (options : Options) :
    Builds m path (out.getD (Path.defaultOutput path)) (compiledFrom content options)
      ((runBuild Files.access path out options).run m).1
      ((runBuild Files.access path out options).run m).2 := by
  obtain ⟨result, hcompile, hresult⟩ := run_compileFile h options
  rw [← hresult, runBuild, run_bind_of_run hcompile]
  generalize out.getD (Path.defaultOutput path) = output
  cases result with
  | error reports => exact .uncompiled _ rfl
  | ok compiled =>
    simp only
    cases halike : (Path.ofString output).alike (Path.ofString path) with
    | true => exact .refused _ halike
    | false =>
      simp only [Bool.false_eq_true, if_false]
      have hrun := run_write m output compiled.code
      cases hwrite : m.write output compiled.code with
      | error e =>
        rw [hwrite] at hrun
        rw [run_bind_of_run hrun]
        exact .unwritten _ compiled rfl hwrite
      | ok m' =>
        rw [hwrite] at hrun
        rw [run_bind_of_run hrun]
        exact .written _ compiled rfl halike hwrite

/-! ### What becomes of the input -/

section

variable {output : String} {compiled : Option Compiled} {outcome : Outcome} {m' : Machine}
  {place : List String}

/-- A build keeps every file that it cannot have written to. -/
theorem Builds.entryAt_of_ne (h : Builds m path output compiled outcome m')
    (hfile : m.entryAt place = some (.file content))
    (hne : (Path.ofString output).alike (Path.ofString path) = false → compiled.isSome →
      m.follow output ≠ .ok place) : m'.entryAt place = some (.file content) := by
  cases h with
  | uncompiled => exact hfile
  | refused => exact hfile
  | unwritten => exact hfile
  | written _ c hcompiled halike hwrite =>
    exact Machine.entryAt_of_write hwrite (hne halike (by simp [hcompiled])) hfile

/-- A build that is not refused replaces a file that its output leads to. -/
theorem Builds.entryAt_of_follow {c : Compiled}
    (h : Builds m path output (some c) outcome m')
    (halike : (Path.ofString output).alike (Path.ofString path) = false)
    (hplace : m.follow output = .ok place) (hfile : m.entryAt place = some (.file content)) :
    outcome.exitCode = 0 ∧ m'.entryAt place = some (.file c.code.toUTF8) := by
  obtain ⟨after, hwritten, hentry⟩ := Machine.exists_write_of_file hplace hfile c.code
  cases h with
  | uncompiled _ hnone => cases hnone
  | refused _ hrefused =>
    rw [halike] at hrefused
    cases hrefused
  | unwritten _ _ hc hwrite =>
    cases hc
    rw [hwritten] at hwrite
    cases hwrite
  | written _ _ hc _ hwrite =>
    cases hc
    rw [hwritten] at hwrite
    cases hwrite
    exact ⟨rfl, hentry⟩

end

/-- The default output for a file leads elsewhere, or it is alike to the path of the file. -/
theorem follow_defaultOutput_ne {place : List String} (h : m.follow path = .ok place)
    (hfile : m.entryAt place = some (.file content))
    (halike : (Path.ofString (Path.defaultOutput path)).alike (Path.ofString path) = false) :
    m.follow (Path.defaultOutput path) ≠ .ok place := by
  intro houtput
  obtain ⟨p, name, directory, hnames, rfl⟩ := Machine.exists_names h hfile
  obtain ⟨_, name', directory', hnames', hplace⟩ := Machine.exists_names houtput hfile
  obtain ⟨-, hne, hpath⟩ := Machine.path_eq_ok_iff.mp hnames.path_eq
  obtain ⟨-, -, hpath'⟩ := Machine.path_eq_ok_iff.mp hnames'.path_eq
  have hname : name = name' := by simpa using (List.append_inj' hplace rfl).2
  have hname' : Path.stem name ++ ".js" = name' := by
    rw [Path.ofString_defaultOutput hne hpath hnames.isName.not_idle] at hpath'
    simpa using (List.append_inj' (congrArg Path.segments hpath') rfl).2
  rw [Path.alike_defaultOutput hne hpath hnames.isName.not_idle (hname'.trans hname.symm)] at halike
  cases halike

/-- The input of a build keeps its content, unless it is compiled to an output that leads to the
place of the input by a path that is not alike; then it is what was compiled. -/
theorem entryAt_runOn_build {arguments : List String} {out : Option String} {options : Options}
    {place : List String} (hrequest : Request.ofArguments arguments = .build path out options)
    (hplace : m.follow path = .ok place) (hfile : m.entryAt place = some (.file content)) :
    (¬(Respells m path out ∧ (compiledFrom content options).isSome) →
      (runOn arguments m).2.entryAt place = some (.file content)) ∧
    ∀ compiled, Respells m path out → compiledFrom content options = some compiled →
      (runOn arguments m).1.exitCode = 0 ∧
      (runOn arguments m).2.entryAt place = some (.file compiled.code.toUTF8) := by
  have hfind : m.find? path = some (.file content) := by simp [Machine.find?, hplace, hfile]
  have hbuilds := builds_run hfind out options
  have hrun : runOn arguments m = (runBuild Files.access path out options).run m := by
    rw [runOn, run, hrequest]
  rw [hrun]
  constructor
  · intro hkept
    refine hbuilds.entryAt_of_ne hfile fun halike hcompiled houtput => ?_
    -- Only a given output can lead to the input and not be refused.
    cases out with
    | none => exact follow_defaultOutput_ne hplace hfile halike houtput
    | some output => exact hkept ⟨⟨output, rfl, halike, houtput.trans hplace.symm⟩, hcompiled⟩
  · rintro compiled ⟨output, rfl, halike, houtput⟩ hcompiled
    rw [hcompiled] at hbuilds
    exact hbuilds.entryAt_of_follow halike (houtput.trans hplace) hfile

/-- A machine with a single file in the directory that it works in. -/
def oneFile : Machine := (Files.mk []).add "d/x.jsh" "let a = 1".toUTF8

/-- By a path with detours, the file is kept if no output is given, and replaced if the output is a
path to it from the root. -/
theorem entryAt_runOn_build_oneFile :
    (runOn ["build", "../work/d//x.jsh"] oneFile).2.entryAt ["tmp", "work", "d", "x.jsh"] =
      some (.file "let a = 1".toUTF8) ∧
    (runOn ["build", "../work/d//x.jsh", "-o", "/tmp/work/d/x.jsh"] oneFile).1.exitCode = 0 ∧
    ∃ code, (compiledFrom "let a = 1".toUTF8 {}).map (·.code) = some code ∧
      (runOn ["build", "../work/d//x.jsh", "-o", "/tmp/work/d/x.jsh"] oneFile).2.entryAt
        ["tmp", "work", "d", "x.jsh"] = some (.file code.toUTF8) := by
  have hplace : oneFile.follow "../work/d//x.jsh" = .ok ["tmp", "work", "d", "x.jsh"] := rfl
  have hfile : oneFile.entryAt ["tmp", "work", "d", "x.jsh"] =
      some (.file "let a = 1".toUTF8) := rfl
  refine ⟨(entryAt_runOn_build rfl hplace hfile).1 ?_, ?_⟩
  · rintro ⟨⟨_, ⟨⟩, _⟩, _⟩
  · have hsome : (compiledFrom "let a = 1".toUTF8 {}).isSome = true := by decide +kernel
    obtain ⟨compiled, hcompiled⟩ := Option.isSome_iff_exists.mp hsome
    have hout : Request.ofArguments ["build", "../work/d//x.jsh", "-o", "/tmp/work/d/x.jsh"] =
        .build "../work/d//x.jsh" (some "/tmp/work/d/x.jsh") {} := rfl
    have hrespells : Respells oneFile "../work/d//x.jsh" (some "/tmp/work/d/x.jsh") :=
      ⟨"/tmp/work/d/x.jsh", rfl, by decide +kernel, rfl⟩
    obtain ⟨hexit, hentry⟩ := (entryAt_runOn_build hout hplace hfile).2 compiled hrespells hcompiled
    exact ⟨hexit, compiled.code, congrArg (Option.map Compiled.code) hcompiled, hentry⟩

/-- A build to its own input, with a dot in front of the path, goes well and replaces the input. -/
theorem entryAt_runOn_build_dot :
    Request.ofArguments ["build", "d/x.jsh", "-o", "./d/x.jsh"] =
      .build "d/x.jsh" (some "./d/x.jsh") {} ∧
    oneFile.follow "d/x.jsh" = .ok ["tmp", "work", "d", "x.jsh"] ∧
    oneFile.entryAt ["tmp", "work", "d", "x.jsh"] = some (.file "let a = 1".toUTF8) ∧
    (runOn ["build", "d/x.jsh", "-o", "./d/x.jsh"] oneFile).1.exitCode = 0 ∧
    (runOn ["build", "d/x.jsh", "-o", "./d/x.jsh"] oneFile).2.entryAt
      ["tmp", "work", "d", "x.jsh"] = some (.file "let a = 1;\n".toUTF8) ∧
    (runOn ["build", "d/x.jsh", "-o", "./d/x.jsh"] oneFile).2.contents =
      [(["d", "x.jsh"], "let a = 1;\n".toUTF8)] ∧
    "let a = 1;\n".toUTF8 ≠ "let a = 1".toUTF8 :=
  ⟨rfl, rfl, rfl, by decide +kernel,
    Machine.entryAt_eq_file_iff.mpr ⟨by decide +kernel, by decide +kernel⟩, by decide +kernel,
    by decide +kernel⟩

end MarkupScript.CommandLine
