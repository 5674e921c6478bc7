import Atlas.Lib.Journal
import Atlas.Lib.JsonText
import Atlas.Memory.Intake
import Mathlib

/-! Backup of the database, the state directories and the owner's marker into a new directory, and
restore into empty targets. The completion marker holds the digest of a manifest, which holds the
digests of all files. -/
namespace Atlas
namespace Maintenance

open Memory (strip)
open JsonText (FloatText Value)

/-- The names of a path. -/
abbrev Path := List String

inductive Entry where
  | file (content : ByteArray)
  | directory
  | link
  | special
  deriving DecidableEq

/-- A directory as `rglob('*')` lists it. -/
structure Tree where
  entries : List (Path × Entry)
  nodup : (entries.map Prod.fst).Nodup
  named : ∀ p ∈ entries.map Prod.fst, p ≠ [] ∧ ∀ name ∈ p, '/' ∉ name.toList
  closed : ∀ p ∈ entries.map Prod.fst, ∀ q, q ≠ [] → q <+: p → q ≠ p → (q,.directory) ∈ entries

def Entry.content : Entry → Option ByteArray
  | .file c => some c
  | _ => none

/-- `Path.as_posix`. -/
def posix (p : Path) : String := "/".intercalate p

namespace Tree

def empty : Tree := ⟨[],by simp,by simp,by simp⟩

def entryAt (t : Tree) (p : Path) : Option Entry := (t.entries.find? fun e => e.1 = p).map (·.2)

/-- The content of a regular file. -/
def file (t : Tree) (p : Path) : Option ByteArray := (t.entryAt p).bind Entry.content

/-- The content of the regular file of a name. -/
def fileNamed (t : Tree) (name : String) : Option ByteArray :=
  (t.entries.find? fun e => posix e.1 = name).bind fun e => e.2.content

/-- What lies under a directory of the tree. -/
def below (name : String) : Path × Entry → Option (Path × Entry)
  | (first :: rest,e) => if first = name ∧ rest ≠ [] then some (rest,e) else none
  | ([],_) => none

theorem below_eq_some {name : String} {x : Path × Entry} {p : Path} {e : Entry} :
    below name x = some (p,e) ↔ x = (name :: p,e) ∧ p ≠ [] := by
  obtain ⟨q,e'⟩ := x
  cases q with
  | nil => simp [below]
  | cons first rest =>
    simp only [below,Prod.mk.injEq,List.cons.injEq]
    constructor
    · intro h
      split at h
      · next hc =>
        obtain ⟨rfl,rfl⟩ := Prod.mk.inj (Option.some.inj h)
        exact ⟨⟨⟨hc.1,rfl⟩,rfl⟩,hc.2⟩
      · cases h
    · rintro ⟨⟨⟨rfl,rfl⟩,rfl⟩,hp⟩
      rw [if_pos ⟨rfl,hp⟩]

theorem mem_below {name : String} {l : List (Path × Entry)} {p : Path} {e : Entry} :
    (p,e) ∈ l.filterMap (below name) ↔ (name :: p,e) ∈ l ∧ p ≠ [] := by
  rw [List.mem_filterMap]
  constructor
  · rintro ⟨x,hx,hb⟩
    obtain ⟨rfl,hp⟩ := below_eq_some.mp hb
    exact ⟨hx,hp⟩
  · rintro ⟨hx,hp⟩
    exact ⟨_,hx,below_eq_some.mpr ⟨rfl,hp⟩⟩

theorem nodup_below (name : String) {l : List (Path × Entry)} (h : (l.map Prod.fst).Nodup) :
    ((l.filterMap (below name)).map Prod.fst).Nodup := by
  induction l with
  | nil => simp
  | cons x l ih =>
    rw [List.map_cons,List.nodup_cons] at h
    rw [List.filterMap_cons]
    cases hb : below name x with
    | none => exact ih h.2
    | some y =>
      obtain ⟨p,e⟩ := y
      obtain ⟨rfl,_⟩ := below_eq_some.mp hb
      refine List.nodup_cons.mpr ⟨fun hm => h.1 ?_,ih h.2⟩
      obtain ⟨⟨q,e'⟩,hq,rfl⟩ := List.mem_map.mp hm
      exact List.mem_map.mpr ⟨_,(mem_below.mp hq).1,rfl⟩

/-- The directory of a name in the tree. -/
def sub (t : Tree) (name : String) : Tree where
  entries := t.entries.filterMap (below name)
  nodup := nodup_below name t.nodup
  named p hp := by
    obtain ⟨⟨_,e⟩,hx,rfl⟩ := List.mem_map.mp hp
    obtain ⟨hmem,hne⟩ := mem_below.mp hx
    exact ⟨hne,fun n hn => (t.named _ (List.mem_map_of_mem hmem)).2 n (List.mem_cons_of_mem _ hn)⟩
  closed p hp q hq hpre hqp := by
    obtain ⟨⟨_,e⟩,hx,rfl⟩ := List.mem_map.mp hp
    obtain ⟨hmem,hne⟩ := mem_below.mp hx
    refine mem_below.mpr ⟨t.closed _ (List.mem_map_of_mem hmem) (name :: q) (by simp) ?_ ?_,hq⟩
    · exact List.cons_prefix_cons.mpr ⟨rfl,hpre⟩
    · exact fun he => hqp (List.cons.inj he).2

end Tree

/-- A state directory. -/
structure Root where
  path : Path
  link : Bool := false
  tree : Option Tree := none

/-- The marker of the owner's enrolment. -/
structure Marker where
  path : Path
  entry : Option Entry := none

/-- `path.is_file() and not path.is_symlink()`. -/
def Marker.content (m : Marker) : Option ByteArray := m.entry.bind Entry.content

structure ArtifactRow where
  storageKey : String
  sha256 : String
  sizeBytes : ℕ

/-- The database and its two tools; `dump` says what was written and whether the tool succeeded. -/
class Postgres (DB : Type) where
  dump : DB → ByteArray × Bool
  load : ByteArray → Option DB
  tables : DB → ℕ
  artifacts : DB → List ArtifactRow

structure World (DB : Type) where
  artifacts : Root
  projectCheckpoints : Root
  marker : Marker
  database : DB

/-- `Path.is_relative_to`. -/
def relativeTo (p q : Path) : Bool := q.isPrefixOf p

/-! Backup. -/

abbrev Write := Journal.Step Path Entry

/-- The writes of a program, and how it ended. -/
abbrev Run (α : Type) := List Write × Except String α

def Run.bind {α β : Type} (x : Run α) (f : α → Run β) : Run β :=
  match x.2 with
  | .error e => (x.1,.error e)
  | .ok a => (x.1 ++ (f a).1,(f a).2)

/-- Why `copy_tree` stops at an entry. -/
def Entry.fault : Entry → Option String
  | .link => some "State snapshots cannot contain symlinks"
  | .special => some "Only regular files and directories can be backed up"
  | _ => none

/-- What a copy of a tree makes. -/
def copied (t : Tree) : Except String Tree :=
  match t.entries.findSome? fun e => e.2.fault with
  | some e => .error e
  | none => .ok t

/-- `copy_tree` to a directory of the snapshot. -/
def copyTree (name : String) (source : Root) : Run Tree :=
  let made := Journal.Step.put [name] Entry.directory
  if source.link then ([made],.error "State roots cannot be symlinks")
  else
    match source.tree with
    | none => ([made],.ok .empty)
    | some t =>
        (made :: (t.entries.takeWhile fun e => e.2.fault.isNone).map
          fun e => .put (name :: e.1) e.2,copied t)

section

variable (digest : ByteArray → String)

def verifyArtifacts : List ArtifactRow → Tree → Except String Unit
  | [], _ => .ok ()
  | row :: rows, t =>
      match t.fileNamed row.storageKey with
      | none => .error "A canonical artifact is missing or escapes the artifact root"
      | some c =>
          if c.size ≠ row.sizeBytes ∨ digest c ≠ row.sha256 then
            .error "Canonical artifact content does not match database evidence"
          else verifyArtifacts rows t

variable {DB : Type} [Postgres DB]

/-- The part of `backup` before the manifest. `occupied` tells whether the destination exists. -/
def snapshot (destination : Path) (occupied : Bool) (w : World DB) : Run Unit :=
  if [w.artifacts,w.projectCheckpoints].any fun r =>
      relativeTo destination r.path || relativeTo r.path destination then
    ([],.error "Backup output must be separate from live state")
  else if occupied then ([],.error "FileExistsError")
  else
    let dump := Postgres.dump w.database
    let dumped : Run Unit := ([.put ["database.dump"] (.file dump.1)],
      if dump.2 then .ok () else .error "pg_dump failed; no successful backup/restore was recorded")
    dumped.bind fun _ => (copyTree "artifacts" w.artifacts).bind fun artifacts =>
      (copyTree "project-checkpoints" w.projectCheckpoints).bind fun _ =>
        (match w.marker.content with
          | some c => [.put ["owner-enrolled"] (.file c)]
          | none => [],verifyArtifacts digest (Postgres.artifacts w.database) artifacts)

/-- The digests of the files that were written. -/
def listing (steps : List Write) : List (String × String) := steps.filterMap fun step =>
  match step with
  | .put p (.file c) => some (posix p,digest c)
  | _ => none

end

def scope : String := "PostgreSQL, artifacts, project checkpoints/change bundles and owner enrollment " ++
  "marker. Provider credentials and runtime configuration require a separate protected backup."

section

variable (F : Type) [FloatText F]

def manifest (createdAt : String) (files : List (String × String)) : Value F :=
  .obj [("version",.int 1),("created_at",.str createdAt),
    ("files",.obj (files.map fun f => (f.1,.str f.2))),("scope",.str scope)]

/-- The text of the manifest, whose lines the source also indents. -/
def manifestText (createdAt : String) (files : List (String × String)) : ByteArray :=
  (String.ofList (JsonText.encode ⟨true,true⟩ (manifest F createdAt files))).toUTF8

variable (digest : ByteArray → String) {DB : Type} [Postgres DB]

def backup (createdAt : String) (destination : Path) (occupied : Bool) (w : World DB) : Run ℕ :=
  let body := snapshot digest destination occupied w
  body.bind fun _ =>
    let files := listing digest body.1
    let text := manifestText F createdAt files
    ([.put ["manifest.json"] (.file text),.sync,
      .put ["COMPLETE"] (.file (digest text).toUTF8),.sync],.ok files.length)

/-! Restore. -/

/-- `value == 1`. -/
def isOne {F : Type} : Value F → Bool
  | .int n => n == 1
  | .bool b => b
  | _ => false

/-- Whether a file has the digest that the manifest gives. -/
def Tree.holds {F : Type} (d : Tree) (digest : ByteArray → String) (listed : String × Value F) : Bool :=
  match d.fileNamed listed.1, listed.2 with
  | some c, .str expected => digest c == expected
  | _, _ => false

/-- The entries that the manifest lists, where the snapshot is the one that it describes. -/
def readSnapshot (d : Tree) : Except String (List (String × Value F)) :=
  if d.entries.any fun e => e.2.fault.isSome then
    .error "Backup contains symlinks or non-regular files"
  else
    match d.file ["COMPLETE"] with
    | none => .error "Backup is incomplete or its manifest changed"
    | some complete =>
      match String.fromUTF8? complete, d.file ["manifest.json"] with
      | none, _ => .error "UnicodeDecodeError"
      | _, none => .error "FileNotFoundError"
      | some marker, some bytes =>
        if strip marker ≠ digest bytes then .error "Backup is incomplete or its manifest changed"
        else
          match (String.fromUTF8? bytes).bind fun text => JsonText.parse (F := F) text.toList with
          | some (.obj fields) =>
            match fields.lookup "files" with
            | some (.obj files) =>
              if (fields.lookup "version").any isOne && (files.map (·.1)).contains "database.dump" then
                if files.all (d.holds digest) then
                  let actual := (d.entries.filter fun e => e.2.content.isSome).map fun e => posix e.1
                  if (actual.filter fun n => n ≠ "COMPLETE" ∧ n ≠ "manifest.json").toFinset =
                      (files.map (·.1)).toFinset then .ok files
                  else .error "Backup contains missing or unlisted files"
                else .error "Backup file integrity check failed"
              else .error "Unsupported backup version"
            | _ => .error "Unsupported backup version"
          | some _ => .error "AttributeError"
          | none => .error "ValueError"

/-- What the targets of a restore must be. -/
def targetsFault (source : Path) (w : World DB) : Option String :=
  if [w.artifacts,w.projectCheckpoints].any fun r => r.link || relativeTo r.path source ||
      relativeTo source r.path || r.tree.any fun t => !t.entries.isEmpty then
    some "Restore requires empty, separate state directories"
  else if relativeTo w.artifacts.path w.projectCheckpoints.path ||
      relativeTo w.projectCheckpoints.path w.artifacts.path then
    some "Restore state directories must not overlap"
  else if relativeTo w.marker.path source ||
      [w.artifacts,w.projectCheckpoints].any fun r => relativeTo w.marker.path r.path then
    some "Restore marker must be separate from snapshot and state directories"
  else if w.marker.entry.isSome then some "Restore requires a new owner enrollment marker location"
  else if Postgres.tables w.database ≠ 0 then
    some "Restore requires an empty database; existing state is never overwritten"
  else none

def restore (source : Path) (d : Tree) (w : World DB) : World DB × Except String Unit :=
  match readSnapshot F digest d with
  | .error e => (w,.error e)
  | .ok _ =>
    match targetsFault source w with
    | some e => (w,.error e)
    | none =>
      match (d.file ["database.dump"]).bind Postgres.load with
      | none => (w,.error "pg_restore failed; no successful backup/restore was recorded")
      | some database =>
        let w := {w with database}
        match copied (d.sub "artifacts") with
        | .error e => (w,.error e)
        | .ok artifacts =>
          let w := {w with artifacts := {w.artifacts with tree := some artifacts}}
          match copied (d.sub "project-checkpoints") with
          | .error e => (w,.error e)
          | .ok checkpoints =>
            let w := {w with
              projectCheckpoints := {w.projectCheckpoints with tree := some checkpoints}}
            match verifyArtifacts digest (Postgres.artifacts database) artifacts with
            | .error e => (w,.error e)
            | .ok () =>
              match d.file ["owner-enrolled"] with
              | some c => ({w with marker := {w.marker with entry := some (.file c)}},.ok ())
              | none => (w,.ok ())

end

end Maintenance
end Atlas
