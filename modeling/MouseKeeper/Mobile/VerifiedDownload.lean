import Mathlib.Logic.Function.Basic
import MouseKeeper.Ensures
import MouseKeeper.Posix.Text

/-!
Downloads to a folder of the phone.

The content comes to a temporary file, is checked, and is copied to a name that nothing had. Any
call of the system may fail, and the download may be cancelled whenever this is looked at. What has
been made until then is deleted.
-/

namespace MouseKeeper.Mobile.VerifiedDownload

open Posix (Name Seg)
open Trace

/-! ### The folder -/

inductive Entry
  | file (content : List UInt8)
  | directory
  | link (target : String)
  | other
  deriving DecidableEq

abbrev Directory := Name → Option Entry

/-- The folder, how many calls of the system there were, and how many names were tried. -/
structure Phone where
  dir : Directory
  clock : ℕ
  tried : ℕ

def Phone.start (dir : Directory) : Phone := ⟨dir, 0, 0⟩

inductive Failure
  | cancelled
  | download
  | fileSystem
  | acknowledge
  | state (message : String)
  deriving DecidableEq

inductive Op
  | cancel | download | create | type | open | read | write | flush | close | delete | cleanUp
  | acknowledge
  deriving DecidableEq

def Op.failure : Op → Failure
  | .cancel => .cancelled
  | .download => .download
  | .acknowledge => .acknowledge
  | _ => .fileSystem

/-- What the package for paths says of the last part of a path. -/
structure PathPackage where
  basename : String → String
  basenameWithoutExtension : String → String
  extension : String → String
  basename_plain : ∀ path, basename path = "/" ∨ '/' ∉ (basename path).toList
  basenameWithoutExtension_plain : ∀ path, '/' ∉ (basenameWithoutExtension path).toList
  extension_plain : ∀ path, '/' ∉ (extension path).toList

structure Environment where
  /-- Whether the call fails, or whether the download is cancelled, at this time. -/
  fails : Op → ℕ → Bool
  /-- What the downloader has written when it ends. -/
  downloaded : Option (List UInt8)
  /-- The blocks in which a file is read. -/
  blocks : List UInt8 → List (List UInt8)
  blocks_flatten : ∀ content, (blocks content).flatten = content
  /-- How much of its block a write has written that fails. -/
  torn : ℕ → ℕ
  sha256 : List UInt8 → String
  paths : PathPackage

/-- Nothing keeps the app from deleting what it has made. -/
def Environment.CleansUp (env : Environment) : Prop := ∀ t, env.fails .cleanUp t = false

abbrev Save (α : Type) : Type := Prog Phone Op Failure α

variable (env : Environment)

/-! ### Calls -/

def Phone.called (s : Phone) (op : Op) (dir : Directory) : Phone :=
  ⟨dir, s.clock + 1, if op = .create then s.tried + 1 else s.tried⟩

/-- A call of the system, and what it leaves if it fails by itself. -/
def call {α : Type} (op : Op) (failed : ℕ → Directory → Directory)
    (f : Directory → Except Failure (α × Directory)) : Save α := do
  let answer ← Prog.step fun s => Except.ok <|
    if env.fails op s.clock then (.error op.failure, op, s.called op (failed s.clock s.dir))
    else
      match f s.dir with
      | .error e => (.error e, op, s.called op s.dir)
      | .ok (a, dir) => (.ok a, op, s.called op dir)
  Prog.check fun _ => answer

/-- A call that changes nothing. -/
def look {α : Type} (op : Op) (f : Directory → Except Failure α) : Save α :=
  call env op (fun _ dir => dir) fun dir => (f dir).map fun a => (a, dir)

def throwIfCancelled : Save Unit := look env .cancel fun _ => .ok ()

/-- The folder with what the downloader has left. -/
def downloadedTo (dir : Directory) (temporary : Name) : Directory :=
  Function.update dir temporary (env.downloaded.map .file)

/-- The downloader, which writes to the temporary file only. -/
def download (temporary : Name) : Save Unit :=
  call env .download (fun _ dir => downloadedTo env dir temporary) fun dir =>
    .ok ((), downloadedTo env dir temporary)

def content (dir : Directory) (file : Name) : Except Failure (List UInt8) :=
  match dir file with
  | some (.file content) => .ok content
  | _ => .error .fileSystem

def openRead (file : Name) : Save (List (List UInt8)) :=
  look env .read fun dir => (content dir file).map env.blocks

/-- `await for`, up to the next block or to the end. -/
def nextBlock : Save Unit := look env .read fun _ => .ok ()

def append (dir : Directory) (file : Name) (bytes : List UInt8) : Directory :=
  match dir file with
  | some (.file content) => Function.update dir file (some (.file (content ++ bytes)))
  | _ => dir

def writeFrom (file : Name) (bytes : List UInt8) : Save Unit :=
  call env .write (fun t dir => append dir file (bytes.take (env.torn t))) fun dir =>
    .ok ((), append dir file bytes)

/-- `FileMode.writeOnly`. -/
def openWrite (file : Name) : Save Unit :=
  call env .open (fun _ dir => dir) fun dir =>
    (content dir file).map fun _ => ((), Function.update dir file (some (.file [])))

def flush : Save Unit := look env .flush fun _ => .ok ()

def close : Save Unit := look env .close fun _ => .ok ()

def delete (op : Op) (file : Name) : Save Unit :=
  call env op (fun _ dir => dir) fun dir =>
    (content dir file).map fun _ => ((), Function.update dir file none)

def fileExists (file : Name) : Save Bool :=
  look env .cleanUp fun dir => .ok (content dir file).isOk

def deleteIfExists (file : Name) : Save Unit := do
  if ← fileExists env file then delete env .cleanUp file

/-! ### Names -/

/-- A name to join to the folder: the root, or a name without separators. -/
def CandidateName : Type := { text : String // text = "/" ∨ '/' ∉ text.toList }

/-- Where the joined path leads. The root, the empty name and the dots lead to a folder that is
there. -/
def CandidateName.place (c : CandidateName) : Seg := Seg.ofPiece c.1.toList

/-- `create(exclusive: true)`. -/
def createExclusive (candidate : CandidateName) : Save Name :=
  call env .create (fun _ dir => dir) fun dir =>
    match candidate.place with
    | .name file =>
      match dir file with
      | none => .ok (file, Function.update dir file (some (.file [])))
      | some _ => .error .fileSystem
    | _ => .error .fileSystem

/-- `FileSystemEntity.type`, which does not follow links, is not `notFound`. -/
def isFound (candidate : CandidateName) : Save Bool :=
  look env .type fun dir =>
    match candidate.place with
    | .name file => .ok (dir file).isSome
    | _ => .ok true

lemma slash_not_mem_toString (n : ℕ) : '/' ∉ (toString n).toList := by
  intro h
  have hmem : '/' ∈ Nat.toDigits 10 n := by rwa [← Nat.toList_repr]
  have hdigit := Nat.isDigit_of_mem_toDigits (by decide) (by decide) hmem
  exact absurd hdigit (by decide)

def candidateName (fileName : String) : ℕ → CandidateName
  | 0 => ⟨env.paths.basename fileName, env.paths.basename_plain fileName⟩
  | suffix + 1 =>
    let safeName := env.paths.basename fileName
    ⟨env.paths.basenameWithoutExtension safeName ++ " (" ++ toString (suffix + 1) ++ ")" ++
        env.paths.extension safeName, .inr (by
      simp only [String.toList_append, List.mem_append, not_or]
      exact ⟨⟨⟨⟨env.paths.basenameWithoutExtension_plain _, by decide⟩,
        slash_not_mem_toString _⟩, by decide⟩, env.paths.extension_plain _⟩)⟩

/-! ### Saving -/

def sha256File (file : Name) : Save String := do
  let blocks ← openRead env file
  let content ← Prog.loop (fun _ bytes read => do
    nextBlock env
    throwIfCancelled env
    pure (read ++ bytes)) blocks 0 []
  nextBlock env
  throwIfCancelled env
  pure (env.sha256 content)

def copyBlocks (temporary candidate : Name) : Save Unit := do
  let blocks ← openRead env temporary
  Prog.loop (fun _ bytes _ => do
    nextBlock env
    throwIfCancelled env
    writeFrom env candidate bytes) blocks 0 ()
  nextBlock env

/-- What is tried until the target is closed. -/
def fillCandidate (temporary candidate : Name) : Save Unit := do
  copyBlocks env temporary candidate
  throwIfCancelled env
  flush env
  close env

/-- What is tried after that. -/
def verifyCandidate (temporary : Name) (expectedSha256 : String) (candidate : Name) :
    Save Name := do
  let copiedDigest ← sha256File env candidate
  throwIfCancelled env
  if copiedDigest ≠ expectedSha256 then Prog.throw (.state "CHECKSUM_MISMATCH")
  else do
    delete env .delete temporary
    pure candidate

/-- What is done with the candidate once it is there. As long as the target is not closed, it is
closed before the candidate is deleted. -/
def copyTo (temporary : Name) (expectedSha256 : String) (candidate : Name) : Save Name := do
  Prog.onError (openWrite env candidate) (deleteIfExists env candidate)
  Prog.onError (fillCandidate env temporary candidate) (do
    let _ ← Prog.attempt (close env)
    deleteIfExists env candidate)
  Prog.onError (verifyCandidate env temporary expectedSha256 candidate)
    (deleteIfExists env candidate)

/-- The names with this suffix and the next ones, as many as are left. -/
def copyFrom (temporary : Name) (fileName expectedSha256 : String) : ℕ → ℕ → Save Name
  | 0, _ => Prog.throw (.state "DESTINATION_NAME_EXHAUSTED")
  | left + 1, suffix => do
    throwIfCancelled env
    match ← Prog.attempt (createExclusive env (candidateName env fileName suffix)) with
    | .ok candidate => copyTo env temporary expectedSha256 candidate
    | .error e => do
      if ← isFound env (candidateName env fileName suffix) then
        copyFrom temporary fileName expectedSha256 left (suffix + 1)
      else Prog.throw e

def copyVerifiedWithoutOverwrite (temporary : Name) (fileName expectedSha256 : String) :
    Save Name :=
  copyFrom env temporary fileName expectedSha256 10000 0

def save (temporary : Name) (fileName expectedSha256 : String) : Save Name :=
  Prog.onError (do
    download env temporary
    throwIfCancelled env
    let digest ← sha256File env temporary
    throwIfCancelled env
    if digest ≠ expectedSha256 then Prog.throw (.state "CHECKSUM_MISMATCH")
    else copyVerifiedWithoutOverwrite env temporary fileName expectedSha256)
    (deleteIfExists env temporary)

/-- `if (cancelToken?.isCancelled ?? false)`. -/
def deleteIfCancelled (file : Name) : Save Unit := do
  match ← Prog.attempt (throwIfCancelled env) with
  | .ok () => pure ()
  | .error _ => deleteIfExists env file

def saveVerifiedDownloadAndAck (temporary : Name) (fileName expectedSha256 : String) :
    Save Name := do
  let file ← save env temporary fileName expectedSha256
  Prog.onError (do
    throwIfCancelled env
    look env .acknowledge fun _ => .ok ()
    pure file) (deleteIfCancelled env file)

variable {env} {s : Phone} {α : Type} {P : α → Phone → Prop} {E : Failure → Phone → Prop}

/-! ### What the calls ensure -/

/-- The folder is as it was, and no name has been tried. -/
def Phone.Same (s s' : Phone) : Prop := s'.dir = s.dir ∧ s'.tried = s.tried

lemma Phone.Same.trans {s s₁ s₂ : Phone} (h : s.Same s₁) (h' : s₁.Same s₂) : s.Same s₂ :=
  ⟨h'.1.trans h.1, h'.2.trans h.2⟩

lemma ensures_call {op : Op} {failed : ℕ → Directory → Directory}
    {f : Directory → Except Failure (α × Directory)}
    (hfail : env.fails op s.clock = true → E op.failure (s.called op (failed s.clock s.dir)))
    (hok : ∀ a dir, f s.dir = .ok (a, dir) → P a (s.called op dir))
    (herror : ∀ e, f s.dir = .error e → E e (s.called op s.dir)) :
    Ensures P E (call env op failed f) s := by
  refine ensures_bind ?_
  by_cases hf : env.fails op s.clock = true
  · refine ensures_step (by rw [if_pos hf]) ?_
    exact hfail hf
  · cases hr : f s.dir with
    | error e =>
      refine ensures_step (by rw [if_neg hf, hr]) ?_
      exact herror e hr
    | ok x =>
      refine ensures_step (by rw [if_neg hf, hr]) ?_
      exact hok x.1 x.2 hr

lemma ensures_look {op : Op} {f : Directory → Except Failure α} (hop : op ≠ .create)
    (hok : ∀ a s', s.Same s' → f s.dir = .ok a → P a s')
    (herror : ∀ e s', s.Same s' → E e s') : Ensures P E (look env op f) s := by
  have hsame : s.Same (s.called op s.dir) := ⟨rfl, if_neg hop⟩
  refine ensures_call (fun _ => herror _ _ hsame) (fun a dir hr => ?_) fun e _ => herror _ _ hsame
  cases hf : f s.dir with
  | error e =>
    rw [hf] at hr
    cases hr
  | ok b =>
    rw [hf] at hr
    cases hr
    exact hok a _ hsame hf

/-- A call that only fails or does not. -/
lemma ensures_pass {P : Unit → Phone → Prop} {op : Op} (hop : op ≠ .create)
    (hok : ∀ s', s.Same s' → P () s') (herror : ∀ e s', s.Same s' → E e s') :
    Ensures P E (look env op fun _ => .ok ()) s :=
  ensures_look hop (fun _ s' hs _ => hok s' hs) herror

lemma content_eq_ok {dir : Directory} {file : Name} {bytes : List UInt8} :
    content dir file = .ok bytes ↔ dir file = some (.file bytes) := by
  unfold content
  split
  · next bytes' h => simp [h]
  · next h =>
    refine ⟨nofun, fun hfile => absurd hfile (h bytes)⟩

lemma ensures_openRead {P : List (List UInt8) → Phone → Prop} {file : Name}
    (hok : ∀ bytes s', s.Same s' → s.dir file = some (.file bytes) → P (env.blocks bytes) s')
    (herror : ∀ e s', s.Same s' → E e s') : Ensures P E (openRead env file) s := by
  refine ensures_look nofun (fun blocks s' hs hr => ?_) herror
  cases hc : content s.dir file with
  | error e =>
    rw [hc] at hr
    cases hr
  | ok bytes =>
    rw [hc] at hr
    cases hr
    exact hok bytes s' hs (content_eq_ok.mp hc)

/-- What is hashed is the content. -/
lemma ensures_sha256File {file : Name} :
    Ensures (fun digest s' => s.Same s' ∧
        ∃ bytes, s.dir file = some (.file bytes) ∧ digest = env.sha256 bytes)
      (fun _ s' => s.Same s') (sha256File env file) s := by
  refine ensures_bind (ensures_openRead (fun bytes s₁ h₁ hfile => ?_) fun _ _ h => h)
  have hloop : Ensures (fun read s' => s.Same s' ∧ read ++ [].flatten = bytes)
      (fun _ s' => s.Same s') (Prog.loop (fun _ bytes read => do
        nextBlock env
        throwIfCancelled env
        pure (read ++ bytes)) (env.blocks bytes) 0 []) s₁ := by
    refine ensures_loop (I := fun as read s' => s.Same s' ∧ read ++ as.flatten = bytes)
      ⟨h₁, env.blocks_flatten bytes⟩ ?_
    rintro i block blocks read s₂ ⟨h₂, hread⟩
    refine ensures_bind (ensures_pass nofun (fun s₃ h₃ => ?_) fun _ s₃ h₃ => h₂.trans h₃)
    refine ensures_bind (ensures_pass nofun (fun s₄ h₄ => ?_)
      fun _ s₄ h₄ => (h₂.trans h₃).trans h₄)
    refine ensures_pure.mpr ⟨(h₂.trans h₃).trans h₄, ?_⟩
    rw [← hread, List.append_assoc, List.flatten_cons]
  refine ensures_bind (hloop.mono (fun read s₂ hread => ?_) fun _ _ h => h)
  obtain ⟨h₂, hread⟩ := hread
  refine ensures_bind (ensures_pass nofun (fun s₃ h₃ => ?_) fun _ s₃ h₃ => h₂.trans h₃)
  refine ensures_bind (ensures_pass nofun (fun s₄ h₄ => ?_) fun _ s₄ h₄ => (h₂.trans h₃).trans h₄)
  refine ensures_pure.mpr ⟨(h₂.trans h₃).trans h₄, bytes, hfile, ?_⟩
  rw [← hread, List.flatten_nil, List.append_nil]

/-! ### The candidate -/

/-- The folder is as in `dir`, but for a file of some content. -/
def Phone.Writes (dir : Directory) (tried : ℕ) (file : Name) (s : Phone) : Prop :=
  (∃ bytes, s.dir = Function.update dir file (some (.file bytes))) ∧ s.tried ≤ tried

variable {dir : Directory} {tried : ℕ} {candidate temporary : Name}

lemma Phone.Writes.same {s' : Phone} (h : s.Writes dir tried candidate) (hs : s.Same s') :
    s'.Writes dir tried candidate := by
  obtain ⟨⟨bytes, hdir⟩, htried⟩ := h
  exact ⟨⟨bytes, hs.1.trans hdir⟩, hs.2.le.trans htried⟩

lemma Phone.Writes.append (h : s.Writes dir tried candidate) (bytes : List UInt8) :
    (s.called .write (append s.dir candidate bytes)).Writes dir tried candidate := by
  obtain ⟨⟨content, hdir⟩, htried⟩ := h
  refine ⟨⟨content ++ bytes, ?_⟩, htried⟩
  change VerifiedDownload.append s.dir candidate bytes = _
  rw [hdir, VerifiedDownload.append]
  simp

/-- Whatever is written goes to the candidate. -/
lemma ensures_copyBlocks (h : s.Writes dir tried candidate) :
    Ensures (fun _ => Phone.Writes dir tried candidate) (fun _ => Phone.Writes dir tried candidate)
      (copyBlocks env temporary candidate) s := by
  refine ensures_bind (ensures_openRead (fun bytes s₁ h₁ _ => ?_) fun _ _ hs => h.same hs)
  have hloop : Ensures (fun _ => Phone.Writes dir tried candidate)
      (fun _ => Phone.Writes dir tried candidate) (Prog.loop (fun _ bytes _ => do
        nextBlock env
        throwIfCancelled env
        writeFrom env candidate bytes) (env.blocks bytes) 0 ()) s₁ := by
    refine ensures_loop (I := fun _ _ => Phone.Writes dir tried candidate) (h.same h₁) ?_
    intro i block blocks _ s₂ h₂
    refine ensures_bind (ensures_pass nofun (fun s₃ h₃ => ?_) fun _ _ hs => h₂.same hs)
    refine ensures_bind (ensures_pass nofun (fun s₄ h₄ => ?_) fun _ _ hs => (h₂.same h₃).same hs)
    have h₄ := (h₂.same h₃).same h₄
    refine ensures_call (fun _ => h₄.append _) (fun a dir' hr => ?_) nofun
    cases hr
    exact h₄.append block
  refine ensures_bind (hloop.mono (fun _ s₂ h₂ => ?_) fun _ _ h => h)
  exact ensures_pass nofun (fun _ hs => h₂.same hs) fun _ _ hs => h₂.same hs

/-! ### Cleaning up -/

/-- The folder without the file, if there is such a file. -/
def removed (dir : Directory) (file : Name) : Directory :=
  match dir file with
  | some (.file _) => Function.update dir file none
  | _ => dir

lemma removed_of_file {file : Name} {bytes : List UInt8} (h : dir file = some (.file bytes)) :
    removed dir file = Function.update dir file none := by
  rw [removed, h]

lemma removed_of_error {file : Name} {e : Failure} (h : content dir file = .error e) :
    removed dir file = dir := by
  unfold removed
  split
  · next bytes hfile =>
    rw [content_eq_ok.mpr hfile] at h
    cases h
  · rfl

/-- A file is deleted, unless the app is kept from it. -/
lemma ensures_deleteIfExists {P : Unit → Phone → Prop} {file : Name}
    (hok : ∀ s', s'.dir = removed s.dir file → s'.tried = s.tried → P () s')
    (herror : ∀ e s', s.Same s' → ¬ env.CleansUp → E e s') :
    Ensures P E (deleteIfExists env file) s := by
  refine ensures_bind ?_
  unfold fileExists look
  refine ensures_call (fun hf => ?_) (fun a dir' hr => ?_) fun e he => ?_
  · exact herror _ _ ⟨rfl, rfl⟩ fun hclean => Bool.false_ne_true ((hclean _).symm.trans hf)
  · cases hr
    cases hc : content s.dir file with
    | error e =>
      change Ensures P E (pure ()) _
      exact hok _ (removed_of_error hc).symm rfl
    | ok bytes =>
      change Ensures P E (delete env .cleanUp file) _
      refine ensures_call (fun hf => ?_) (fun a dir' hr => ?_) fun e he => ?_
      · exact herror _ _ ⟨rfl, rfl⟩ fun hclean => Bool.false_ne_true ((hclean _).symm.trans hf)
      · change (content s.dir file).map _ = _ at hr
        rw [hc] at hr
        cases hr
        exact hok _ (removed_of_file (content_eq_ok.mp hc)).symm rfl
      · change (content s.dir file).map _ = _ at he
        rw [hc] at he
        cases he
  · cases he

/-- The failure has left nothing, or the app was kept from deleting the candidate. -/
def Phone.Failed (env : Environment) (dir : Directory) (tried : ℕ) (s : Phone) : Prop :=
  (s.dir = dir ∨ ¬ env.CleansUp ∧ ∃ file, dir file = none ∧ s.Writes dir s.tried file) ∧
    s.tried ≤ tried

lemma removed_writes (h : s.Writes dir tried candidate) (hnew : dir candidate = none) :
    removed s.dir candidate = dir := by
  obtain ⟨⟨bytes, hdir⟩, -⟩ := h
  rw [removed, hdir, Function.update_self]
  dsimp only
  rw [Function.update_idem, Function.update_eq_self_iff, hnew]

/-- The candidate is deleted after a failure. -/
lemma Phone.Writes.cleanUp (h : s.Writes dir tried candidate) (hnew : dir candidate = none) :
    Ensures (fun _ => Phone.Failed env dir tried) (fun _ => Phone.Failed env dir tried)
      (deleteIfExists env candidate) s := by
  refine ensures_deleteIfExists (fun s' hdir htried => ?_) fun _ s' hs hkept => ?_
  · exact ⟨.inl (hdir.trans (removed_writes h hnew)), htried.le.trans h.2⟩
  · have h' := h.same hs
    exact ⟨.inr ⟨hkept, candidate, hnew, h'.1, le_rfl⟩, h'.2⟩

/-! ### The copy -/

/-- The candidate has become a file with the hash, and the temporary file is gone. -/
def Phone.Copied (env : Environment) (dir : Directory) (temporary : Name) (expectedSha256 : String)
    (tried : ℕ) (file : Name) (s : Phone) : Prop :=
  dir file = none ∧ s.tried ≤ tried ∧ ∃ bytes, env.sha256 bytes = expectedSha256 ∧
    s.dir = Function.update (Function.update dir file (some (.file bytes))) temporary none

variable {expectedSha256 : String}

lemma Phone.Writes.opened (h : s.Writes dir tried candidate) :
    (s.called .open (Function.update s.dir candidate (some (.file [])))).Writes dir tried
      candidate := by
  obtain ⟨⟨bytes, hdir⟩, htried⟩ := h
  refine ⟨⟨[], ?_⟩, htried⟩
  change Function.update s.dir candidate _ = _
  rw [hdir, Function.update_idem]

lemma ensures_openWrite (h : s.Writes dir tried candidate) :
    Ensures (fun _ => Phone.Writes dir tried candidate) (fun _ => Phone.Writes dir tried candidate)
      (openWrite env candidate) s := by
  refine ensures_call (fun _ => h.same ⟨rfl, rfl⟩) (fun a dir' hr => ?_)
    fun _ _ => h.same ⟨rfl, rfl⟩
  cases hc : content s.dir candidate with
  | error e =>
    rw [hc] at hr
    cases hr
  | ok bytes =>
    rw [hc] at hr
    cases hr
    exact h.opened

lemma ensures_fillCandidate (h : s.Writes dir tried candidate) :
    Ensures (fun _ => Phone.Writes dir tried candidate) (fun _ => Phone.Writes dir tried candidate)
      (fillCandidate env temporary candidate) s := by
  refine ensures_bind ((ensures_copyBlocks h).mono (fun _ s₁ h₁ => ?_) fun _ _ hs => hs)
  refine ensures_bind (ensures_pass nofun (fun s₂ h₂ => ?_) fun _ _ hs => h₁.same hs)
  have h₂ := h₁.same h₂
  refine ensures_bind (ensures_pass nofun (fun s₃ h₃ => ?_) fun _ _ hs => h₂.same hs)
  have h₃ := h₂.same h₃
  exact ensures_pass nofun (fun _ hs => h₃.same hs) fun _ _ hs => h₃.same hs

/-- The second hash is that of the candidate. -/
lemma ensures_verifyCandidate (h : s.Writes dir tried candidate) (hnew : dir candidate = none) :
    Ensures (Phone.Copied env dir temporary expectedSha256 tried)
      (fun _ => Phone.Writes dir tried candidate)
      (verifyCandidate env temporary expectedSha256 candidate) s := by
  refine ensures_bind (ensures_sha256File.mono (fun digest s₁ hs => ?_) fun _ _ hs => h.same hs)
  obtain ⟨h₁, bytes, hbytes, hdigest⟩ := hs
  refine ensures_bind (ensures_pass nofun (fun s₂ h₂ => ?_) fun _ _ hs => (h.same h₁).same hs)
  have h₂ := h₁.trans h₂
  split_ifs with hmatch
  · exact h.same h₂
  · refine ensures_bind (ensures_call (fun _ => (h.same h₂).same ⟨rfl, rfl⟩) (fun a dir' hr => ?_)
      fun _ _ => (h.same h₂).same ⟨rfl, rfl⟩)
    cases hc : content s₂.dir temporary with
    | error e =>
      rw [hc] at hr
      cases hr
    | ok bytes' =>
      rw [hc] at hr
      cases hr
      obtain ⟨⟨written, hdir⟩, htried⟩ := h
      rw [hdir, Function.update_self] at hbytes
      cases hbytes
      refine ensures_pure.mpr ⟨hnew, h₂.2.le.trans htried, bytes, ?_, ?_⟩
      · rw [← hdigest, not_not.mp hmatch]
      · change Function.update s₂.dir temporary none = _
        rw [h₂.1, hdir]

lemma ensures_copyTo (h : s.Writes dir tried candidate) (hnew : dir candidate = none) :
    Ensures (Phone.Copied env dir temporary expectedSha256 tried)
      (fun _ => Phone.Failed env dir tried) (copyTo env temporary expectedSha256 candidate) s := by
  refine ensures_bind (ensures_onError ((ensures_openWrite h).mono (fun _ s₁ h₁ => ?_)
    fun _ _ hs => hs.cleanUp hnew))
  refine ensures_bind (ensures_onError ((ensures_fillCandidate h₁).mono (fun _ s₂ h₂ => ?_)
    fun _ s₂ h₂ => ?_))
  · exact ensures_onError ((ensures_verifyCandidate h₂ hnew).mono (fun _ _ h => h)
      fun _ _ hs => hs.cleanUp hnew)
  · refine ensures_bind (ensures_attempt.mpr (ensures_pass nofun (fun s₃ h₃ => ?_) fun _ s₃ h₃ => ?_))
    · exact (h₂.same h₃).cleanUp hnew
    · exact (h₂.same h₃).cleanUp hnew

/-! ### The search for a name -/

variable {fileName : String}

/-- What is created is new, and a file without content. -/
lemma ensures_createExclusive {P : Name → Phone → Prop} {c : CandidateName}
    (hok : ∀ file, s.dir file = none → ∀ s', s'.Writes s.dir (s.tried + 1) file → P file s')
    (herror : ∀ e s', s'.dir = s.dir → s'.tried = s.tried + 1 → E e s') :
    Ensures P E (createExclusive env c) s := by
  refine ensures_call (fun _ => herror _ _ rfl rfl) (fun file dir' hr => ?_)
    fun e _ => herror e _ rfl rfl
  split at hr
  · next name hplace =>
    split at hr
    · next hnone =>
      cases hr
      exact hok file hnone _ ⟨⟨[], rfl⟩, le_rfl⟩
    · cases hr
  · cases hr

lemma ensures_copyFrom {left suffix : ℕ} (hdir : s.dir = dir) (h : s.tried + left ≤ tried) :
    Ensures (Phone.Copied env dir temporary expectedSha256 tried)
      (fun _ => Phone.Failed env dir tried)
      (copyFrom env temporary fileName expectedSha256 left suffix) s := by
  induction left generalizing suffix s with
  | zero => exact ensures_throw.mpr ⟨.inl hdir, by omega⟩
  | succ left ih =>
    refine ensures_bind (ensures_pass nofun (fun s₁ h₁ => ?_) fun _ s₁ h₁ => ?_)
    swap
    · exact ⟨.inl (h₁.1.trans hdir), h₁.2.le.trans (by omega)⟩
    have hdir₁ := h₁.1.trans hdir
    have htried₁ := h₁.2
    refine ensures_bind (ensures_attempt.mpr (ensures_createExclusive
      (fun file hnone s₂ h₂ => ?_) fun e s₂ hdir₂ htried₂ => ?_))
    · rw [hdir₁] at hnone h₂
      exact ensures_copyTo ⟨h₂.1, h₂.2.trans (by omega)⟩ hnone
    · have hdir₂ := hdir₂.trans hdir₁
      refine ensures_bind (ensures_look nofun (fun found s₃ h₃ _ => ?_) fun _ s₃ h₃ => ?_)
      · have hdir₃ := h₃.1.trans hdir₂
        have htried₃ := h₃.2
        split_ifs
        · exact ih hdir₃ (by omega)
        · exact ensures_throw.mpr ⟨.inl hdir₃, by omega⟩
      · exact ⟨.inl (h₃.1.trans hdir₂), h₃.2.le.trans (by omega)⟩

/-! ### The download -/

/-- The file is new and has the hash, the temporary file is gone and nothing else is changed. -/
structure Saved (env : Environment) (dir : Directory) (temporary : Name) (expectedSha256 : String)
    (file : Name) (s : Phone) : Prop where
  new : dir file = none
  content : ∃ bytes, s.dir file = some (.file bytes) ∧ env.sha256 bytes = expectedSha256
  temporary : s.dir temporary = none
  others : ∀ other, other ≠ file → s.dir other = dir other
  tried : s.tried ≤ 10000

/-- What was there is not changed, and if the app can delete what it has made nothing else is
there. -/
structure NothingLeft (env : Environment) (dir : Directory) (s : Phone) : Prop where
  existing : ∀ file entry, dir file = some entry → s.dir file = some entry
  nothing : env.CleansUp → s.dir = dir
  tried : s.tried ≤ 10000

lemma removed_other {file other : Name} (h : other ≠ file) : removed dir file other = dir other := by
  cases hc : content dir file with
  | error e => rw [removed_of_error hc]
  | ok bytes => rw [removed_of_file (content_eq_ok.mp hc), Function.update_of_ne h]

lemma removed_downloadedTo (h : dir temporary = none) :
    removed (downloadedTo env dir temporary) temporary = dir := by
  unfold downloadedTo
  cases env.downloaded with
  | none =>
    have hsame : Function.update dir temporary none = dir := by
      rw [Function.update_eq_self_iff, h]
    change removed (Function.update dir temporary none) temporary = dir
    rw [hsame, removed, h]
  | some bytes =>
    refine (removed_of_file (Function.update_self ..)).trans ?_
    rw [Function.update_idem, Function.update_eq_self_iff, h]

/-- What was there is not touched by a failure. -/
lemma Phone.Failed.existing {file : Name} {entry : Entry} (htemporary : dir temporary = none)
    (h : s.Failed env (downloadedTo env dir temporary) tried) (hfile : dir file = some entry) :
    file ≠ temporary ∧ s.dir file = some entry := by
  have hne : file ≠ temporary := by
    rintro rfl
    rw [htemporary] at hfile
    cases hfile
  have hbefore : downloadedTo env dir temporary file = some entry :=
    (Function.update_of_ne hne ..).trans hfile
  refine ⟨hne, ?_⟩
  rcases h.1 with hdir | ⟨-, candidate, hnew, ⟨bytes, hdir⟩, -⟩
  · rw [hdir, hbefore]
  · have hother : file ≠ candidate := by
      rintro rfl
      rw [hbefore] at hnew
      cases hnew
    rw [hdir, Function.update_of_ne hother, hbefore]

/-- The temporary file is deleted after a failure. -/
lemma Phone.Failed.cleanUp (htemporary : dir temporary = none)
    (h : s.Failed env (downloadedTo env dir temporary) 10000) :
    Ensures (fun _ => NothingLeft env dir) (fun _ => NothingLeft env dir)
      (deleteIfExists env temporary) s := by
  refine ensures_deleteIfExists (fun s' hdir htried => ?_) fun _ s' hs hkept => ?_
  · refine ⟨fun file entry hfile => ?_, fun hclean => ?_, htried.le.trans h.2⟩
    · obtain ⟨hne, hsame⟩ := h.existing htemporary hfile
      rw [hdir, removed_other hne, hsame]
    · rcases h.1 with hsame | ⟨hkept, -⟩
      · rw [hdir, hsame, removed_downloadedTo htemporary]
      · exact absurd hclean hkept
  · refine ⟨fun file entry hfile => ?_, fun hclean => absurd hclean hkept, hs.2.le.trans h.2⟩
    rw [hs.1, (h.existing htemporary hfile).2]

lemma Phone.Copied.saved {file : Name} (htemporary : dir temporary = none)
    (hthere : downloadedTo env dir temporary temporary ≠ none)
    (h : s.Copied env (downloadedTo env dir temporary) temporary expectedSha256 10000 file) :
    Saved env dir temporary expectedSha256 file s := by
  obtain ⟨hnew, htried, bytes, hdigest, hdir⟩ := h
  have hne : file ≠ temporary := by
    rintro rfl
    exact hthere hnew
  refine ⟨?_, ⟨bytes, ?_, hdigest⟩, ?_, fun other hother => ?_, htried⟩
  · rwa [downloadedTo, Function.update_of_ne hne] at hnew
  · rw [hdir, Function.update_of_ne hne, Function.update_self]
  · rw [hdir, Function.update_self]
  · rcases eq_or_ne other temporary with rfl | hother'
    · rw [hdir, Function.update_self, htemporary]
    · rw [hdir, Function.update_of_ne hother', Function.update_of_ne hother, downloadedTo,
        Function.update_of_ne hother']

lemma ensures_save (htemporary : dir temporary = none) :
    Ensures (Saved env dir temporary expectedSha256) (fun _ => NothingLeft env dir)
      (save env temporary fileName expectedSha256) (Phone.start dir) := by
  have hfailed {s : Phone} (hdir : s.dir = downloadedTo env dir temporary) (htried : s.tried = 0) :
      Ensures (fun _ => NothingLeft env dir) (fun _ => NothingLeft env dir)
        (deleteIfExists env temporary) s :=
    Phone.Failed.cleanUp htemporary ⟨.inl hdir, by omega⟩
  refine ensures_onError (ensures_bind (ensures_call (fun _ => hfailed rfl rfl)
    (fun a dir' hr => ?_) fun e he => ?_))
  swap
  · cases he
  cases hr
  refine ensures_bind (ensures_pass nofun (fun s₁ h₁ => ?_) fun _ s₁ h₁ => hfailed h₁.1 h₁.2)
  refine ensures_bind (ensures_sha256File.mono (fun digest s₂ hs => ?_)
    fun _ s₂ h₂ => hfailed (h₂.1.trans h₁.1) (h₂.2.trans h₁.2))
  obtain ⟨h₂, bytes, hbytes, -⟩ := hs
  have h₂ := h₁.trans h₂
  refine ensures_bind (ensures_pass nofun (fun s₃ h₃ => ?_)
    fun _ s₃ h₃ => hfailed (h₃.1.trans h₂.1) (h₃.2.trans h₂.2))
  have h₃ := h₂.trans h₃
  split_ifs
  · exact ensures_throw.mpr (hfailed h₃.1 h₃.2)
  · have hthere : downloadedTo env dir temporary temporary ≠ none := by
      rw [h₁.1] at hbytes
      exact fun hnone => absurd (hbytes.symm.trans hnone) (Option.some_ne_none _)
    have htried : s₃.tried = 0 := h₃.2
    rw [copyVerifiedWithoutOverwrite]
    exact (ensures_copyFrom h₃.1 (by omega)).mono (fun file s' h => h.saved htemporary hthere)
      fun _ s' h => h.cleanUp htemporary

/-! ### The acknowledgement -/

lemma Saved.same {file : Name} {s' : Phone} (h : Saved env dir temporary expectedSha256 file s)
    (hs : s.Same s') : Saved env dir temporary expectedSha256 file s' := by
  obtain ⟨hnew, hcontent, htemporary, hothers, htried⟩ := h
  rw [← hs.1] at hcontent htemporary hothers
  exact ⟨hnew, hcontent, htemporary, hothers, hs.2.le.trans htried⟩

lemma Saved.removed {file : Name} (h : Saved env dir temporary expectedSha256 file s) :
    removed s.dir file = dir := by
  obtain ⟨bytes, hbytes, -⟩ := h.content
  rw [removed_of_file hbytes]
  funext other
  rcases eq_or_ne other file with rfl | hne
  · rw [Function.update_self, h.new]
  · rw [Function.update_of_ne hne, h.others other hne]

lemma Saved.existing {file other : Name} {entry : Entry}
    (h : Saved env dir temporary expectedSha256 file s) (hother : dir other = some entry) :
    s.dir other = some entry := by
  rw [h.others other, hother]
  rintro rfl
  rw [h.new] at hother
  cases hother

lemma Saved.deleted {file : Name} (h : Saved env dir temporary expectedSha256 file s) :
    Ensures (fun _ => NothingLeft env dir) (fun _ => NothingLeft env dir)
      (deleteIfExists env file) s := by
  refine ensures_deleteIfExists (fun s' hdir htried => ?_) fun _ s' hs hkept => ?_
  · have hback := hdir.trans h.removed
    exact ⟨fun other entry hother => hback ▸ hother, fun _ => hback, htried.le.trans h.tried⟩
  · exact ⟨fun other entry hother => (h.same hs).existing hother,
      fun hclean => absurd hclean hkept, (h.same hs).tried⟩

/-- A file that is not acknowledged is kept as it was saved, or else deleted, if the download has
been cancelled. -/
theorem ensures_saveVerifiedDownloadAndAck (htemporary : dir temporary = none) :
    Ensures (Saved env dir temporary expectedSha256)
      (fun _ s => NothingLeft env dir s ∨ ∃ file, Saved env dir temporary expectedSha256 file s)
      (saveVerifiedDownloadAndAck env temporary fileName expectedSha256) (Phone.start dir) := by
  refine ensures_bind ((ensures_save htemporary).mono (fun file s₁ h₁ => ?_) fun _ _ h => .inl h)
  have hfailed {s : Phone} (h : Saved env dir temporary expectedSha256 file s) :
      Ensures (fun _ s => NothingLeft env dir s ∨ ∃ file, Saved env dir temporary expectedSha256 file s)
        (fun _ s => NothingLeft env dir s ∨ ∃ file, Saved env dir temporary expectedSha256 file s)
        (deleteIfCancelled env file) s := by
    refine ensures_bind (ensures_attempt.mpr (ensures_pass nofun (fun s₂ h₂ => ?_)
      fun _ s₂ h₂ => ?_))
    · exact .inr ⟨file, h.same h₂⟩
    · exact (h.same h₂).deleted.mono (fun _ _ h => .inl h) fun _ _ h => .inl h
  refine ensures_onError (ensures_bind (ensures_pass nofun (fun s₂ h₂ => ?_)
    fun _ s₂ h₂ => hfailed (h₁.same h₂)))
  have h₂ := h₁.same h₂
  exact ensures_bind (ensures_pass nofun (fun s₃ h₃ => h₂.same h₃)
    fun _ s₃ h₃ => hfailed (h₂.same h₃))

/-- **A download is saved whole or not at all**, whatever fails and whatever is in the folder. -/
theorem save_whole_or_nothing (env : Environment) (dir : Directory) (temporary : Name)
    (fileName expectedSha256 : String) (htemporary : dir temporary = none) :
    Ensures (Saved env dir temporary expectedSha256) (fun _ => NothingLeft env dir)
      (save env temporary fileName expectedSha256) (Phone.start dir) :=
  ensures_save htemporary

/-! ### A folder with a file of this name -/

/-- The last part of a path that is not empty. -/
def lastPart (path : String) : List Char :=
  (((Posix.splitSlash path.toList).filter (· ≠ [])).getLast?).getD []

def stemOf (part : List Char) : List Char := if part = ['.', '.'] then part else Posix.stem part

lemma slash_not_mem_lastPart (path : String) : '/' ∉ lastPart path := by
  unfold lastPart
  cases h : ((Posix.splitSlash path.toList).filter (· ≠ [])).getLast? with
  | none => exact List.not_mem_nil
  | some part => exact Posix.not_mem_splitSlash (List.mem_of_mem_filter (List.mem_of_getLast? h))

lemma mem_stemOf {part : List Char} {c : Char} (h : c ∈ stemOf part) : c ∈ part := by
  unfold stemOf Posix.stem at h
  split_ifs at h
  · exact h
  · split at h
    · exact h
    · next first rest hdrop =>
      have hmem {x : Char} (hx : x ∈ rest) : x ∈ part :=
        List.mem_reverse.mp (List.dropWhile_subset _ (hdrop ▸ List.mem_cons_of_mem _ hx))
      split_ifs at h
      · exact h
      · exact hmem (List.mem_reverse.mp h)

/-- How paths are taken apart on a phone. -/
def posixPaths : PathPackage where
  basename path :=
    if lastPart path = [] ∧ path.toList.head? = some '/' then "/" else String.ofList (lastPart path)
  basenameWithoutExtension path := String.ofList (stemOf (lastPart path))
  extension path := String.ofList ((lastPart path).drop (stemOf (lastPart path)).length)
  basename_plain path := by
    split_ifs
    · exact .inl rfl
    · exact .inr (by simpa using slash_not_mem_lastPart path)
  basenameWithoutExtension_plain path := by
    simpa using fun h => slash_not_mem_lastPart path (mem_stemOf h)
  extension_plain path := by
    simpa using fun h => slash_not_mem_lastPart path (List.mem_of_mem_drop h)

/-- Nothing fails. Files are read at once, and hashed to their length. -/
def sampleEnvironment : Environment where
  fails _ _ := false
  downloaded := some [1, 2, 3]
  blocks content := [content]
  blocks_flatten content := List.append_nil content
  torn _ := 0
  sha256 content := toString content.length
  paths := posixPaths

def report : Name := ⟨"report.txt", by decide⟩

def part : Name := ⟨".mousekeeper-0.part", by decide⟩

def sampleDirectory : Directory := Function.update (fun _ => none) report (some .directory)

example : ((save sampleEnvironment part "nested/report.txt" "3").run
    (Phone.start sampleDirectory)).result = .ok ⟨"report (1).txt", by decide⟩ := by
  decide +kernel

/-- There is a folder named `report.txt`. -/
theorem save_report : Ensures (Saved sampleEnvironment sampleDirectory part "3")
    (fun _ => NothingLeft sampleEnvironment sampleDirectory)
    (save sampleEnvironment part "nested/report.txt" "3") (Phone.start sampleDirectory) :=
  save_whole_or_nothing sampleEnvironment sampleDirectory part "nested/report.txt" "3" (by decide)

end MouseKeeper.Mobile.VerifiedDownload
