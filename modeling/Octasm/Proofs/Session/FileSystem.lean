import Octasm.Proofs.Fallible
import Octasm.Session
import Octasm.Workspace

/-!
# File systems behind a host

A run sees its files only through a host, and what the host makes of a path is not for the run to
know: links may lead two paths to one file, a file may be refused, the space may run out in the
middle of a write. A `FileSystem` keeps all of that open. What its operations answer is arbitrary.
It only promises which file each of them may change, that a failed attempt to create a file changes
none, and that bytes which have been written can be found in the file, unless the file is a device.

A host works on a file system if its operations have those answers and effects on the files of its
state, whatever else the state holds, and if printing leaves the files alone. `Yields` says this of
any action: from one state of the files it gives one answer and leads to one state of the files.

## Main definitions

* `FileSystem`: operations on files, and what they promise
* `FileSystem.source`, `FileSystem.store`: a text that is read, and bytes that are stored
* `Session.Yields`: the answer of an action, and the files that it leaves
* `FileSystem.Backs`: a host that works on a file system
* `Workspace.fileSystem`: the files of a workspace

## Main results

* `FileSystem.content?_store_of_ne`, `FileSystem.content?_store`: storing bytes changes one file
* `FileSystem.Backs.yields_readSource`, `FileSystem.Backs.yields_writeFile`: the steps of a run
* `Workspace.backs_host`: the host of a workspace works on its files
-/

namespace Octasm

/-! ### File systems -/

/-- Operations on the files of a state in `φ`, and what they promise. -/
structure FileSystem (φ Handle File : Type) where
  /-- Open a file for reading. -/
  openFile : φ → Text → Except Cause Handle
  /-- All bytes of a file that was opened for reading. -/
  readAll : φ → Handle → Except Cause (List UInt8)
  /-- Create a file, or empty the one that is there. A failed attempt changes nothing. -/
  createFile : φ → Text → Except Cause (Handle × φ)
  /-- Write the content of a file that was just created. A failed attempt may leave anything. -/
  writeAll : φ → Handle → List UInt8 → Except Cause Unit × φ
  /-- The file behind a handle. -/
  file : Handle → File
  /-- The bytes that a file holds. A device holds none. -/
  content? : φ → File → Option (List UInt8)
  /-- Creating a file changes no other. -/
  content?_createFile {w v : φ} {path : Text} {h : Handle} {f : File} :
    createFile w path = .ok (h, v) → f ≠ file h → content? v f = content? w f
  /-- Writing to a file changes no other. -/
  content?_writeAll_of_ne {w : φ} {h : Handle} {bytes : List UInt8} {f : File} :
    f ≠ file h → content? (writeAll w h bytes).2 f = content? w f
  /-- Bytes that have been written to anything but a device are there. -/
  content?_writeAll {w : φ} {h : Handle} {bytes : List UInt8} :
    (content? w (file h)).isSome → (writeAll w h bytes).1 = .ok () →
      content? (writeAll w h bytes).2 (file h) = some bytes

namespace FileSystem

variable {φ Handle File : Type} (fs : FileSystem φ Handle File) {w u v : φ} {path : Text}
  {handle : Handle} {bytes : List UInt8} {f : File}

/-- The text that is read at a path. -/
def source (w : φ) (path : Text) : Except Failure Text :=
  match fs.openFile w path with
  | .error cause => .error (.file .opening path cause)
  | .ok h =>
    match fs.readAll w h with
    | .error cause => .error (.file .reading path cause)
    | .ok bytes =>
      match Text.ofUtf8? bytes with
      | some source => .ok source
      | none => .error (.file .reading path .notUtf8)

/-- Store bytes at a path: create a file, and write them. -/
def store (w : φ) (path : Text) (bytes : List UInt8) : Except Failure Unit × φ :=
  match fs.createFile w path with
  | .error cause => (.error (.file .creating path cause), w)
  | .ok (h, v) =>
    ((fs.writeAll v h bytes).1.mapError (.file .writing path), (fs.writeAll v h bytes).2)

/-- The file that is created for a path. -/
def created? (w : φ) (path : Text) : Option File :=
  match fs.createFile w path with
  | .ok (h, _) => some (fs.file h)
  | .error _ => none

/-- The file that is created for a path is there, and no device. -/
def Keeps (w : φ) (path : Text) : Prop :=
  ∃ h v, fs.createFile w path = .ok (h, v) ∧ (fs.content? v (fs.file h)).isSome

theorem store_of_createFile (h : fs.createFile w path = .ok (handle, v)) (bytes : List UInt8) :
    fs.store w path bytes = ((fs.writeAll v handle bytes).1.mapError (.file .writing path),
      (fs.writeAll v handle bytes).2) := by
  rw [store, h]

/-- Storing bytes changes no file but the one that is created for them. -/
theorem content?_store_of_ne {r : Except Failure Unit} (h : fs.store w path bytes = (r, u))
    (hf : f ∉ fs.created? w path) : fs.content? u f = fs.content? w f := by
  cases hc : fs.createFile w path with
  | error cause =>
    rw [store, hc] at h
    cases h
    rfl
  | ok created =>
    obtain ⟨handle, v⟩ := created
    have hne : f ≠ fs.file handle := by
      rintro rfl
      rw [created?, hc] at hf
      exact hf rfl
    rw [fs.store_of_createFile hc] at h
    cases h
    rw [fs.content?_writeAll_of_ne hne, fs.content?_createFile hc hne]

/-- Bytes that have been stored are in the file, unless it is a device. -/
theorem content?_store (h : fs.store w path bytes = (.ok (), u)) (hf : f ∈ fs.created? w path)
    (hkeeps : fs.Keeps w path) : fs.content? u f = some bytes := by
  obtain ⟨handle, v, hc, hsome⟩ := hkeeps
  rw [created?, hc] at hf
  obtain rfl := Option.some.inj hf
  rw [fs.store_of_createFile hc] at h
  obtain ⟨hok, rfl⟩ := Prod.mk.inj h
  refine fs.content?_writeAll hsome ?_
  cases hwrite : (fs.writeAll v handle bytes).1 with
  | ok _ => rfl
  | error cause =>
    rw [hwrite] at hok
    cases hok

end FileSystem

/-! ### Actions on files -/

namespace Session

section

variable {σ φ α β ε : Type} {files : σ → φ} {u v w : φ}

/-- From the files `w` an action answers `a` and leaves the files `v`. -/
def Yields (files : σ → φ) (w : φ) (act : StateM σ α) (a : α) (v : φ) : Prop :=
  ∀ s, files s = w → (act.run s).run.1 = a ∧ files (act.run s).run.2 = v

namespace Yields

theorem pure (w : φ) (a : α) : Yields files w (Pure.pure a) a w := fun _ h => ⟨rfl, h⟩

theorem bind {x : StateM σ α} {y : α → StateM σ β} {a : α} {b : β} (hx : Yields files w x a v)
    (hy : Yields files v (y a) b u) : Yields files w (x >>= y) b u := by
  intro s hs
  obtain ⟨ha, hv⟩ := hx s hs
  have hrun := hy _ hv
  rw [← ha] at hrun
  exact hrun

/-- An action goes on after one that succeeds, -/
theorem bind_ok {x : ExceptT ε (StateM σ) α} {y : α → ExceptT ε (StateM σ) β} {a : α}
    {b : Except ε β} (hx : Yields files w x.run (.ok a) v) (hy : Yields files v (y a).run b u) :
    Yields files w (x >>= y).run b u := by
  rw [ExceptT.run_bind]
  exact hx.bind hy

/-- and ends with one that fails. -/
theorem bind_error {x : ExceptT ε (StateM σ) α} {y : α → ExceptT ε (StateM σ) β} {e : ε}
    (hx : Yields files w x.run (.error e) v) : Yields files w (x >>= y).run (.error e) v := by
  rw [ExceptT.run_bind]
  exact hx.bind (pure v _)

theorem attempt {x : StateM σ (Except Cause α)} {r : Except Cause α} (hx : Yields files w x r v)
    (action : Action) (path : Text) :
    Yields files w (attempt action path x).run (r.mapError (.file action path)) v := by
  cases r with
  | ok a => exact hx.bind (pure v _)
  | error cause => exact hx.bind (pure v _)

end Yields

end

end Session

namespace FileSystem

open Session

variable {σ φ Handle File : Type}

/-- The host works on the file system with the files of its state. -/
structure Backs (fs : FileSystem φ Handle File) (host : Host (StateM σ) Handle) (files : σ → φ) :
    Prop where
  openFile (w : φ) (path : Text) : Yields files w (host.openFile path) (fs.openFile w path) w
  readAll (w : φ) (h : Handle) : Yields files w (host.readAll h) (fs.readAll w h) w
  createFile {w v : φ} {path : Text} {h : Handle} :
    fs.createFile w path = .ok (h, v) → Yields files w (host.createFile path) (.ok h) v
  createFile_error {w : φ} {path : Text} {cause : Cause} :
    fs.createFile w path = .error cause → Yields files w (host.createFile path) (.error cause) w
  writeAll (w : φ) (h : Handle) (bytes : List UInt8) :
    Yields files w (host.writeAll h bytes) (fs.writeAll w h bytes).1 (fs.writeAll w h bytes).2
  print (w : φ) (row : Text) : Yields files w (host.print row) () w

namespace Backs

variable {fs : FileSystem φ Handle File} {host : Host (StateM σ) Handle} {files : σ → φ}

theorem yields_print (hfs : fs.Backs host files) (w : φ) (row : Text) :
    Yields files w (Session.print host row).run (.ok ()) w := by
  intro s hs
  exact ⟨rfl, (hfs.print w row s hs).2⟩

theorem yields_readSource (hfs : fs.Backs host files) (w : φ) (path : Text) :
    Yields files w (readSource host path).run (fs.source w path) w := by
  have hopen := (hfs.openFile w path).attempt .opening path
  rw [source, readSource]
  cases ho : fs.openFile w path with
  | error cause =>
    rw [ho] at hopen
    exact hopen.bind_error
  | ok h =>
    rw [ho] at hopen
    refine hopen.bind_ok ?_
    have hread := (hfs.readAll w h).attempt .reading path
    dsimp only
    cases hr : fs.readAll w h with
    | error cause =>
      rw [hr] at hread
      exact hread.bind_error
    | ok bytes =>
      rw [hr] at hread
      refine hread.bind_ok ?_
      dsimp only
      cases Text.ofUtf8? bytes with
      | some source => exact .pure w (Except.ok source)
      | none => exact .pure w (Except.error _)

theorem yields_writeFile (hfs : fs.Backs host files) (w : φ) (path : Text) (bytes : List UInt8) :
    Yields files w (writeFile host path bytes).run (fs.store w path bytes).1
      (fs.store w path bytes).2 := by
  cases hc : fs.createFile w path with
  | error cause =>
    rw [store, hc]
    exact ((hfs.createFile_error hc).attempt .creating path).bind_error
  | ok r =>
    obtain ⟨h, v⟩ := r
    rw [fs.store_of_createFile hc]
    exact ((hfs.createFile hc).attempt .creating path).bind_ok
      ((hfs.writeAll v h bytes).attempt .writing path)

end Backs

end FileSystem

/-! ### Workspaces -/

namespace Workspace

variable {w v : Workspace} {place other : Place} {path : Text} {bytes : List UInt8}

/-- The workspace with its printed rows wiped: its files. -/
def files (w : Workspace) : Workspace := { w with printed := [] }

/-- The bytes of the file at a place. -/
def content? (w : Workspace) (place : Place) : Option (List UInt8) :=
  match w.node? place with
  | some (.file bytes) => some bytes
  | _ => none

theorem node?_setNode_of_ne (w : Workspace) (node : Node) (h : other ≠ place) :
    (w.setNode place node).node? other = w.node? other := by
  have hlookup : ∀ nodes : List (Place × Node),
      (nodes.filter fun entry => entry.1 != place).lookup other = nodes.lookup other := by
    intro nodes
    induction nodes with
    | nil => rfl
    | cons entry nodes ih =>
      obtain ⟨there, node⟩ := entry
      by_cases hplace : there = place
      · rw [List.filter_cons_of_neg (by simp [hplace]), ih, List.lookup_cons, hplace,
          beq_false_of_ne h]
      · rw [List.filter_cons_of_pos (by simpa using hplace), List.lookup_cons, List.lookup_cons, ih]
  rw [node?, node?, setNode, List.lookup_cons, beq_false_of_ne h, hlookup]

theorem node?_setNode (w : Workspace) (node : Node) (h : place ≠ []) :
    (w.setNode place node).node? place = some node := by
  rw [node?, if_neg (by simpa using h), setNode, List.lookup_cons, beq_self_eq_true]

theorem content?_setNode_of_ne (w : Workspace) (node : Node) (h : other ≠ place) :
    (w.setNode place node).content? other = w.content? other := by
  rw [content?, node?_setNode_of_ne w node h, content?]

/-- Creating a file puts an empty one at a place, or finds a device there. -/
theorem createFile_eq_ok (h : w.createFile path = .ok (place, v)) :
    v = w ∨ v = w.setNode place (.file []) := by
  obtain ⟨there, -, h⟩ := Fallible.bind_eq_ok_iff.mp h
  split at h <;> cases h
  · exact Or.inl rfl
  · exact Or.inl rfl
  · exact Or.inr rfl
  · exact Or.inr rfl

/-- Writing puts a file with the bytes at a place, or finds a device there. -/
theorem writeAll_eq_ok (h : w.writeAll place bytes = .ok v) :
    (w.content? place = none ∧ v = w) ∨ v = w.setNode place (.file bytes) := by
  rw [writeAll] at h
  rw [content?]
  split at h
  · exact Or.inr (Except.ok.inj h).symm
  · rename_i hnode
    exact Or.inl ⟨by rw [hnode], (Except.ok.inj h).symm⟩
  · rename_i hnode
    split at h
    · exact Or.inl ⟨by rw [hnode], (Except.ok.inj h).symm⟩
    · cases h
  · cases h
  · cases h

/-- The root is no file. -/
theorem ne_nil_of_content? (h : (w.content? place).isSome) : place ≠ [] := by
  rintro rfl
  cases h

/-- The files of a workspace. -/
def fileSystem : FileSystem Workspace Place Place where
  openFile := openFile
  readAll := readAll
  createFile := createFile
  writeAll w place bytes :=
    match w.writeAll place bytes with
    | .ok v => (.ok (), v)
    | .error cause => (.error cause, w)
  file := id
  content? := content?
  content?_createFile := by
    intro w v path place other hcreate hne
    rcases createFile_eq_ok hcreate with rfl | rfl
    · rfl
    · exact content?_setNode_of_ne w _ hne
  content?_writeAll_of_ne := by
    intro w place bytes other hne
    cases hwrite : w.writeAll place bytes with
    | error cause => rfl
    | ok v =>
      rcases writeAll_eq_ok hwrite with ⟨-, rfl⟩ | rfl
      · rfl
      · exact content?_setNode_of_ne w _ hne
  content?_writeAll := by
    intro w place bytes hsome hok
    cases hwrite : w.writeAll place bytes with
    | error cause =>
      rw [hwrite] at hok
      cases hok
    | ok v =>
      rcases writeAll_eq_ok hwrite with ⟨hnone, -⟩ | rfl
      · rw [id_eq, hnone] at hsome
        cases hsome
      · have hplace : place ≠ [] := ne_nil_of_content? hsome
        dsimp only [id_eq]
        rw [content?, node?_setNode w _ hplace]

/-- Neither creating a file nor writing to it depends on what has been printed. -/
theorem createFile_files (w : Workspace) (path : Text) :
    w.files.createFile path = (w.createFile path).map fun r => (r.1, r.2.files) := by
  have hresolve : w.files.resolveNew path = w.resolveNew path := rfl
  rw [createFile, createFile, hresolve]
  cases w.resolveNew path with
  | error cause => rfl
  | ok place =>
    have hnode : w.files.node? place = w.node? place := rfl
    simp only [bind, Except.bind, hnode]
    cases w.node? place with
    | none => rfl
    | some node => cases node <;> rfl

theorem writeAll_files (w : Workspace) (place : Place) (bytes : List UInt8) :
    w.files.writeAll place bytes = (w.writeAll place bytes).map files := by
  have hnode : w.files.node? place = w.node? place := rfl
  rw [writeAll, writeAll, hnode]
  cases w.node? place with
  | none => rfl
  | some node =>
    cases node with
    | full => cases bytes <;> rfl
    | _ => rfl

/-- **The host of a workspace** works on its files. -/
theorem backs_host : fileSystem.Backs host files where
  openFile w path := by
    rintro s rfl
    exact ⟨rfl, rfl⟩
  readAll w place := by
    rintro s rfl
    exact ⟨rfl, rfl⟩
  createFile := by
    rintro w v path place hcreate s rfl
    change s.files.createFile path = _ at hcreate
    rw [createFile_files] at hcreate
    cases hs : s.createFile path with
    | error cause =>
      rw [hs] at hcreate
      cases hcreate
    | ok r =>
      rw [hs] at hcreate
      cases hcreate
      simp [host, hs]
  createFile_error := by
    rintro w path cause hcreate s rfl
    change s.files.createFile path = _ at hcreate
    rw [createFile_files] at hcreate
    cases hs : s.createFile path with
    | error cause' =>
      rw [hs] at hcreate
      cases hcreate
      simp [host, hs]
    | ok r =>
      rw [hs] at hcreate
      cases hcreate
  writeAll w place bytes := by
    rintro s rfl
    have hwrite : fileSystem.writeAll s.files place bytes
        = match s.files.writeAll place bytes with
          | .ok v => (.ok (), v)
          | .error cause => (.error cause, s.files) := rfl
    rw [hwrite, writeAll_files]
    cases hs : s.writeAll place bytes <;> simp [host, hs, Except.map]
  print w row := by
    rintro s rfl
    exact ⟨rfl, rfl⟩

end Workspace

end Octasm
