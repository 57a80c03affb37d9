import Octasm.Proofs.Image
import Octasm.Proofs.Session.FileSystem
import Octasm.Proofs.Symbols

/-!
# What a run does to files

A run can end in six places: at the input, which may be missing, unreadable or no text, in the
assembler, and at the creation and the writing of each of its two outputs. Where it ends decides the
exit code and everything that happens to files, and nothing else does: the rows that are printed and
the listing leave the files alone.

The input is read to its end before the output is created. So the program is that of the input as it
was, even if the output takes its place. The output is complete before the symbols are begun, so it
is lost only if the symbols go to the same file.

All of this holds over any file system, whatever it answers (`Octasm.FileSystem`). Whether two paths
name one file is up to the file system, and so is what a write that fails leaves behind.

## Main definitions

* `FileSystem.program`, `FileSystem.run`: the program of an input, and a run as a function on files
* `Session.Effect`: what a run does, by the place where it ends

## Main results

* `FileSystem.Backs.yields_run`: a run does what `FileSystem.run` does
* `Session.execute_effect`: the exit code and the files after a run
-/

namespace Octasm

/-- The bytes of the output for a program. -/
def Options.image (o : Options) (p : Program) : List UInt8 := Image.fileBytes o.format p.code

/-! ### Runs as functions on files -/

namespace FileSystem

variable {σ φ Handle File : Type}

/-- The program whose source is read at a path. -/
def program (fs : FileSystem φ Handle File) (w : φ) (path : Text) : Except Failure Program :=
  match fs.source w path with
  | .error failure => .error failure
  | .ok source => (assemble source).mapError (.assembly path source)

/-- Store the symbols of a program, if they are asked for. -/
def storeSymbols (fs : FileSystem φ Handle File) (o : Options) (p : Program) (w : φ) :
    Except Failure Unit × φ :=
  match o.symbols with
  | none => (.ok (), w)
  | some path => fs.store w path (Symbols.render p).toUtf8

/-- Store the outputs for a program. -/
def storeOutputs (fs : FileSystem φ Handle File) (o : Options) (p : Program) (w : φ) :
    Except Failure Unit × φ :=
  match fs.store w o.output (o.image p) with
  | (.error failure, v) => (.error failure, v)
  | (.ok (), v) => fs.storeSymbols o p v

/-- A run on files. -/
def run (fs : FileSystem φ Handle File) (o : Options) (w : φ) : Except Failure Unit × φ :=
  match fs.program w o.input with
  | .error failure => (.error failure, w)
  | .ok p => fs.storeOutputs o p w

section

variable {fs : FileSystem φ Handle File} {o : Options} {w u : φ} {p : Program} {f : File}
  {failure : Failure}

/-- There is a program if the input can be opened and read, is a text, and assembles. -/
theorem program_eq_ok_iff {path : Text} : fs.program w path = .ok p ↔
    ∃ handle bytes source, fs.openFile w path = .ok handle ∧ fs.readAll w handle = .ok bytes ∧
      Text.ofUtf8? bytes = some source ∧ assemble source = .ok p := by
  rw [program, source]
  cases fs.openFile w path with
  | error cause => simp
  | ok handle =>
    cases hread : fs.readAll w handle with
    | error cause => simp [hread]
    | ok bytes =>
      cases hsource : Text.ofUtf8? bytes with
      | none => simp [hread, hsource]
      | some source =>
        cases hp : assemble source with
        | error fault => simp [hread, hsource, hp, Except.mapError]
        | ok q => simp [hread, hsource, hp, Except.mapError]

theorem run_of_program_error (hp : fs.program w o.input = .error failure) :
    fs.run o w = (.error failure, w) := by
  rw [run, hp]

theorem run_of_output_error (hp : fs.program w o.input = .ok p)
    (houtput : fs.store w o.output (o.image p) = (.error failure, u)) :
    fs.run o w = (.error failure, u) := by
  rw [run, hp]
  dsimp only
  rw [storeOutputs, houtput]

theorem run_of_output (hp : fs.program w o.input = .ok p)
    (houtput : fs.store w o.output (o.image p) = (.ok (), u)) :
    fs.run o w = fs.storeSymbols o p u := by
  rw [run, hp]
  dsimp only
  rw [storeOutputs, houtput]

theorem storeSymbols_of_mem {path : Text} (hpath : o.symbols = some path) (p : Program) (w : φ) :
    fs.storeSymbols o p w = fs.store w path (Symbols.render p).toUtf8 := by
  rw [storeSymbols, hpath]

theorem storeSymbols_eq_ok_iff : (fs.storeSymbols o p w).1 = .ok () ↔
    ∀ path ∈ o.symbols, (fs.store w path (Symbols.render p).toUtf8).1 = .ok () := by
  rw [storeSymbols]
  cases o.symbols with
  | none => simp
  | some path => simp

/-- Storing the symbols changes no file but the one that is created for them. -/
theorem content?_storeSymbols_of_ne (h : ∀ path ∈ o.symbols, f ∉ fs.created? w path) :
    fs.content? (fs.storeSymbols o p w).2 f = fs.content? w f := by
  rw [storeSymbols]
  cases hpath : o.symbols with
  | none => rfl
  | some path => exact fs.content?_store_of_ne rfl (h path hpath)

/-- A run succeeds if there is a program and everything could be stored. -/
theorem run_eq_ok_iff : (fs.run o w).1 = .ok () ↔ ∃ p u, fs.program w o.input = .ok p ∧
    fs.store w o.output (o.image p) = (.ok (), u) ∧
      ∀ path ∈ o.symbols, (fs.store u path (Symbols.render p).toUtf8).1 = .ok () := by
  constructor
  · intro h
    cases hp : fs.program w o.input with
    | error failure =>
      rw [run_of_program_error hp] at h
      cases h
    | ok p =>
      cases hstore : fs.store w o.output (o.image p) with
      | mk r u =>
        cases r with
        | error failure =>
          rw [run_of_output_error hp hstore] at h
          cases h
        | ok _ =>
          rw [run_of_output hp hstore] at h
          exact ⟨p, u, rfl, hstore, storeSymbols_eq_ok_iff.mp h⟩
  · rintro ⟨p, u, hp, hstore, hsymbols⟩
    rw [run_of_output hp hstore]
    exact storeSymbols_eq_ok_iff.mpr hsymbols

end

namespace Backs

open Session

variable {fs : FileSystem φ Handle File} {host : Host (StateM σ) Handle} {files : σ → φ}

/-- A report leaves the files alone. -/
theorem yields_report (hfs : fs.Backs host files) (w : φ) (rows : List Text) :
    Yields files w (rows.forM host.print) () w := by
  induction rows with
  | nil => exact .pure w ()
  | cons row rows ih => exact (hfs.print w row).bind ih

/-- A listing leaves the files alone, if there is one at all. -/
theorem yields_listing (hfs : fs.Backs host files) (w : φ) (dump : Bool) (rows : List Text) :
    Yields files w (if dump then rows.forM (Session.print host) else pure ()).run (.ok ()) w := by
  cases dump with
  | false => exact .pure w (Except.ok ())
  | true =>
    rw [if_pos rfl]
    induction rows with
    | nil => exact .pure w (Except.ok ())
    | cons row rows ih => exact (hfs.yields_print w row).bind_ok ih

/-- **A run** does to the files what `FileSystem.run` does. -/
theorem yields_run (hfs : fs.Backs host files) (o : Options) (w : φ) :
    Yields files w (Session.run host o).run (fs.run o w).1 (fs.run o w).2 := by
  have hprint := hfs.yields_print
  rw [Session.run, run, program]
  refine (hprint w _).bind_ok ((hprint w _).bind_ok ((hprint w _).bind_ok ?_))
  have hsource := hfs.yields_readSource w o.input
  cases hs : fs.source w o.input with
  | error failure =>
    rw [hs] at hsource
    exact hsource.bind_error
  | ok source =>
    rw [hs] at hsource
    refine hsource.bind_ok ((hprint w _).bind_ok ?_)
    dsimp only
    cases assemble source with
    | error fault => exact .pure w (Except.error _)
    | ok p =>
      refine (hprint w _).bind_ok ((hprint w _).bind_ok ((hprint w _).bind_ok ?_))
      have houtput := hfs.yields_writeFile w o.output (o.image p)
      change Yields files w _ (fs.storeOutputs o p w).1 (fs.storeOutputs o p w).2
      rw [storeOutputs]
      cases hout : fs.store w o.output (o.image p) with
      | mk r v =>
        rw [hout] at houtput
        cases r with
        | error failure => exact houtput.bind_error
        | ok _ =>
          refine houtput.bind_ok ?_
          dsimp only
          rw [storeSymbols]
          cases o.symbols with
          | none => exact hfs.yields_listing v _ _
          | some path =>
            refine (hprint v _).bind_ok ?_
            have hsymbols := hfs.yields_writeFile v path (Symbols.render p).toUtf8
            dsimp only
            cases hsym : fs.store v path (Symbols.render p).toUtf8 with
            | mk r u =>
              rw [hsym] at hsymbols
              cases r with
              | error failure => exact hsymbols.bind_error
              | ok _ => exact hsymbols.bind_ok (hfs.yields_listing u _ _)

end Backs

end FileSystem

/-! ### Exit codes and files -/

namespace Session

variable {σ φ Handle File : Type}

/-- The exit code of a run. -/
def exitCode : Except Failure Unit → UInt32
  | .ok () => 0
  | .error _ => 1

/-- What a run with these options does to the files `w`: it leaves the files `v`, and this is its
exit code. -/
structure Effect (fs : FileSystem φ Handle File) (o : Options) (w v : φ) (code : UInt32) :
    Prop where
  /-- What is written for a program is its image, -/
  image (p : Program) : Image.Holds p.code o.format (o.image p)
  /-- and its symbols, which tell its labels and its source map. -/
  symbols {p : Program} (hp : fs.program w o.input = .ok p) :
    Symbols.Describes (Symbols.render p) p
  /-- Without a program nothing changes. -/
  of_program_error {failure : Failure} (hp : fs.program w o.input = .error failure) :
    code = 1 ∧ v = w
  /-- If the output cannot be created or written, the run ends there. Nothing but the output has
  been touched. -/
  of_output_error {p : Program} {u : φ} {failure : Failure} (hp : fs.program w o.input = .ok p)
      (houtput : fs.store w o.output (o.image p) = (.error failure, u)) :
    code = 1 ∧ v = u ∧ ∀ f ∉ fs.created? w o.output, fs.content? v f = fs.content? w f
  /-- If the symbols cannot be created or written, the output is complete, unless it is the same
  file. Nothing but the two has been touched. -/
  of_symbols_error {p : Program} {u u' : φ} {path : Text} {failure : Failure}
      (hp : fs.program w o.input = .ok p)
      (houtput : fs.store w o.output (o.image p) = (.ok (), u)) (hpath : o.symbols = some path)
      (hsymbols : fs.store u path (Symbols.render p).toUtf8 = (.error failure, u')) :
    code = 1 ∧ v = u' ∧
      (∀ f ∈ fs.created? w o.output, fs.Keeps w o.output → f ∉ fs.created? u path →
        fs.content? v f = some (o.image p)) ∧
      ∀ f ∉ fs.created? w o.output, f ∉ fs.created? u path → fs.content? v f = fs.content? w f
  /-- The run succeeds if there is a program and all that was asked for could be stored, and fails
  else. -/
  code_eq_zero_iff : code = 0 ↔ ∃ p u, fs.program w o.input = .ok p ∧
    fs.store w o.output (o.image p) = (.ok (), u) ∧
      ∀ path ∈ o.symbols, (fs.store u path (Symbols.render p).toUtf8).1 = .ok ()
  code_eq_one_of_ne_zero : code ≠ 0 → code = 1
  /-- After a success the output holds the image, unless the symbols went to the same file, and the
  symbols hold the symbols. Nothing but the two has been touched. -/
  of_code_eq_zero {p : Program} {u : φ} (hcode : code = 0) (hp : fs.program w o.input = .ok p)
      (houtput : fs.store w o.output (o.image p) = (.ok (), u)) :
    (∀ f ∈ fs.created? w o.output, fs.Keeps w o.output →
      (∀ path ∈ o.symbols, f ∉ fs.created? u path) → fs.content? v f = some (o.image p)) ∧
    (∀ path ∈ o.symbols, ∀ f ∈ fs.created? u path, fs.Keeps u path →
      fs.content? v f = some (Symbols.render p).toUtf8) ∧
    ∀ f ∉ fs.created? w o.output, (∀ path ∈ o.symbols, f ∉ fs.created? u path) →
      fs.content? v f = fs.content? w f

theorem exitCode_eq_zero_iff {r : Except Failure Unit} : exitCode r = 0 ↔ r = .ok () := by
  cases r with
  | ok _ => exact iff_of_true rfl rfl
  | error failure => exact iff_of_false (by rw [exitCode]; decide) nofun

open FileSystem in
/-- The effect of a run as a function on files. -/
theorem effect_run (fs : FileSystem φ Handle File) (o : Options) (w : φ) :
    Effect fs o w (fs.run o w).2 (exitCode (fs.run o w).1) where
  image p := Image.holds_iff.mpr rfl
  symbols hp := by
    obtain ⟨-, -, source, -, -, -, hassemble⟩ := program_eq_ok_iff.mp hp
    exact Symbols.describes_render (wellKeyed_of_assemble hassemble)
  of_program_error hp := by
    rw [run_of_program_error hp]
    exact ⟨rfl, rfl⟩
  of_output_error hp houtput := by
    rw [run_of_output_error hp houtput]
    exact ⟨rfl, rfl, fun f hf => fs.content?_store_of_ne houtput hf⟩
  of_symbols_error hp houtput hpath hsymbols := by
    rw [run_of_output hp houtput, storeSymbols_of_mem hpath, hsymbols]
    refine ⟨rfl, rfl, fun f hf hkeeps hne => ?_, fun f hf hne => ?_⟩
    · rw [fs.content?_store_of_ne hsymbols hne, fs.content?_store houtput hf hkeeps]
    · rw [fs.content?_store_of_ne hsymbols hne, fs.content?_store_of_ne houtput hf]
  code_eq_zero_iff := exitCode_eq_zero_iff.trans run_eq_ok_iff
  code_eq_one_of_ne_zero h := by
    cases hr : (fs.run o w).1 with
    | ok _ =>
      rw [hr] at h
      exact absurd rfl h
    | error failure => rfl
  of_code_eq_zero := by
    intro p u hcode hp houtput
    rw [run_of_output hp houtput] at hcode ⊢
    refine ⟨fun f hf hkeeps hne => ?_, fun path hpath f hf hkeeps => ?_, fun f hf hne => ?_⟩
    · rw [content?_storeSymbols_of_ne hne, fs.content?_store houtput hf hkeeps]
    · have hstored := storeSymbols_eq_ok_iff.mp (exitCode_eq_zero_iff.mp hcode) path hpath
      rw [storeSymbols_of_mem hpath]
      exact fs.content?_store (Prod.ext hstored rfl) hf hkeeps
    · rw [content?_storeSymbols_of_ne hne, fs.content?_store_of_ne houtput hf]

/-- A run that is asked for by the arguments ends with its exit code; a report leaves the files
alone. -/
theorem yields_execute {fs : FileSystem φ Handle File} {host : Host (StateM σ) Handle}
    {files : σ → φ} {args : List Text} {o : Options} (hfs : fs.Backs host files)
    (hargs : Request.ofArguments args = .assemble o) (w : φ) :
    Yields files w (execute host args) (exitCode (fs.run o w).1) (fs.run o w).2 := by
  have hrun := hfs.yields_run o w
  rw [execute, hargs]
  refine hrun.bind ?_
  cases (fs.run o w).1 with
  | ok _ => exact .pure _ _
  | error failure => exact (hfs.yields_report _ _).bind (.pure _ _)

/-- **Exit codes and files.** -/
theorem execute_effect {fs : FileSystem φ Handle File} {host : Host (StateM σ) Handle}
    {files : σ → φ} {args : List Text} {o : Options} (hfs : fs.Backs host files)
    (hargs : Request.ofArguments args = .assemble o) (s : σ) :
    Effect fs o (files s) (files ((execute host args).run s).run.2)
      ((execute host args).run s).run.1 := by
  obtain ⟨hcode, hfiles⟩ := yields_execute hfs hargs (files s) s rfl
  rw [hcode, hfiles]
  exact effect_run fs o (files s)

/-- A source in place of which the image is written. -/
theorem execute_effect_in_place :
    Workspace.fileSystem.Backs Workspace.host Workspace.files ∧
      Request.ofArguments (["-o", "main.asm"].map String.toList)
        = .assemble ⟨"main.asm".toList, "main.asm".toList, .bin, none, false⟩ ∧
      let w : Workspace := ⟨[(["main.asm".toList], .file (Text.toUtf8 "DB 7".toList))], [], []⟩
      let r := ((execute Workspace.host (["-o", "main.asm"].map String.toList)).run w).run
      Effect Workspace.fileSystem ⟨"main.asm".toList, "main.asm".toList, .bin, none, false⟩
        w.files r.2.files r.1 :=
  ⟨Workspace.backs_host, rfl, execute_effect Workspace.backs_host rfl _⟩

example :
    let w : Workspace := ⟨[(["main.asm".toList], .file (Text.toUtf8 "DB 7".toList))], [], []⟩
    let r := ((execute Workspace.host (["-o", "main.asm"].map String.toList)).run w).run
    r.1 = 0 ∧ r.2.content? ["main.asm".toList] = some [7] := by
  decide +kernel

end Session

end Octasm
