import AgenticKibana.Library.Dict
import AgenticKibana.Library.Machine
import AgenticKibana.Library.TextLines

/-!
# The tail of a file

The receiver keeps a byte offset for each file.  In a pass it compares the offset with the
size, reads what lies between, moves the offset to the size and emits the lines of what it
read.  The files grow between any two of these steps.  Every line comes out once, and no
piece of a line, as long as every size the receiver sees ends a line and no emission fails.
-/

namespace AgenticKibana.Receivers

open AgenticKibana.Library List
open AgenticKibana.Library.TextLines

abbrev Line := List Char

/-! ### The receiver -/

/-- Where `start` is: not running, in a pass with the files that are left (asleep if none is), or
waiting for the read or the emission that belongs to a file. -/
inductive Phase where
  | stopped
  | polling (todo : List String)
  | reading (path : String) (offset size : Nat) (todo : List String)
  | emitting (path : String) (line : Line) (lines : List Line) (todo : List String)
  deriving DecidableEq

/-- `_offsets`, and where the coroutine is. -/
structure FileReceiver where
  offsets : Dict String Nat := .empty
  phase : Phase := .stopped
  deriving DecidableEq

/-- The files that `path` and `glob` select, with their bytes. -/
abbrev Files := Dict String (List UInt8)

/-- `_files()`. -/
def listing (files : Files) : List String := files.keys.insertionSort (· ≤ ·)

/-- `line.strip()` as a condition. -/
def hasText (line : Line) : Bool := line.any fun c => !isSpace c

section Steps

variable (fromStart : Bool)

def firstOffset (size : Nat) : Nat := if fromStart then 0 else size

/-- The offsets that `start` sets before its first pass. -/
def initOffsets (files : Files) (offsets : Dict String Nat) : Dict String Nat :=
  (listing files).foldl
    (fun acc path => acc.set path (firstOffset fromStart ((files.get? path).getD []).length))
    offsets

theorem get?_foldl_set (f : String → Nat) (paths : List String) (d : Dict String Nat)
    (path : String) :
    (paths.foldl (fun acc p => acc.set p (f p)) d).get? path =
      if path ∈ paths then some (f path) else d.get? path := by
  induction paths generalizing d with
  | nil => rfl
  | cons p paths ih =>
    rw [foldl_cons, ih, Dict.get?_set]
    by_cases htail : path ∈ paths
    · rw [if_pos htail, if_pos (mem_cons_of_mem _ htail)]
    · by_cases hp : path = p
      · subst hp
        rw [if_neg htail, if_pos rfl, if_pos mem_cons_self]
      · have hnot : path ∉ p :: paths := by
          intro h
          rcases mem_cons.mp h with h | h
          · exact hp h
          · exact htail h
        rw [if_neg htail, if_neg hp, if_neg hnot]

theorem get?_foldl_setDefault (f : String → Nat) (paths : List String) {d : Dict String Nat}
    {path : String} (h : d.get? path = none) :
    (paths.foldl (fun acc p => acc.setDefault p (f p)) d).get? path =
      if path ∈ paths then some (f path) else none := by
  have hkeep : ∀ (paths : List String) (d : Dict String Nat) (v : Nat), d.get? path = some v →
      (paths.foldl (fun acc p => acc.setDefault p (f p)) d).get? path = some v := by
    intro paths
    induction paths with
    | nil =>
      intro d v hv
      exact hv
    | cons p paths ih =>
      intro d v hv
      apply ih
      rw [Dict.get?_setDefault]
      split
      · rename_i hp
        rw [← hp, hv]
        rfl
      · exact hv
  induction paths generalizing d with
  | nil => exact h
  | cons p paths ih =>
    rw [foldl_cons]
    by_cases hp : path = p
    · subst hp
      rw [if_pos mem_cons_self]
      apply hkeep
      rw [Dict.get?_setDefault, if_pos rfl, h]
      rfl
    · have hmem : path ∈ p :: paths ↔ path ∈ paths := by
        rw [mem_cons, or_iff_right hp]
      rw [ih (by rw [Dict.get?_setDefault, if_neg hp, h])]
      simp only [hmem]

def FileReceiver.known (r : FileReceiver) (path : String) (size : Nat) : Nat :=
  (r.offsets.get? path).getD (firstOffset fromStart size)

def FileReceiver.look (r : FileReceiver) (path : String) (size : Nat) (todo : List String) :
    FileReceiver :=
  let known := r.known fromStart path size
  -- truncated or rotated
  let offset := if size < known then 0 else known
  if size ≤ offset then ⟨r.offsets.set path size, .polling todo⟩
  else ⟨r.offsets, .reading path offset size todo⟩

end Steps

def emitPhase (path : String) (lines : List Line) (todo : List String) : Phase :=
  match lines with
  | [] => .polling todo
  | line :: lines => .emitting path line lines todo

def readChunk (bytes : List UInt8) (offset size : Nat) : List Char :=
  decode ((bytes.drop offset).take (size - offset))

def FileReceiver.read (r : FileReceiver) (path : String) (bytes : List UInt8) (offset size : Nat)
    (todo : List String) : FileReceiver :=
  ⟨r.offsets.set path size,
    emitPhase path ((splitLines (readChunk bytes offset size)).filter hasText) todo⟩

/-! ### The files and the receiver -/

structure Tail where
  files : Files
  receiver : FileReceiver
  emitted : List (String × Line) := []
  origins : Dict String Nat := .empty
  deriving DecidableEq

/-- What happens next: bytes are appended to a file, `start` is called by its supervisor, a pass
begins, a file is looked at, read, or one of its lines emitted.  A failure leaves `start`. -/
inductive TailMove where
  | append (path : String) (bytes : List UInt8)
  | start
  | pass
  | look
  | read (ok : Bool)
  | emit (ok : Bool)
  deriving DecidableEq

def Tail.bytes (w : Tail) (path : String) : List UInt8 := (w.files.get? path).getD []

def Tail.emittedOf (w : Tail) (path : String) : List Line :=
  (w.emitted.filter fun e => e.1 == path).map Prod.snd

def Tail.appended (w : Tail) (path : String) (bytes : List UInt8) : Tail :=
  { w with files := w.files.set path (w.bytes path ++ bytes) }

/-- `start` up to its first pass. -/
def Tail.started (fromStart : Bool) (w : Tail) : Tail :=
  { w with
    receiver := ⟨initOffsets fromStart w.files w.receiver.offsets, .polling []⟩
    origins := (listing w.files).foldl
      (fun acc path => acc.setDefault path (firstOffset fromStart (w.bytes path).length))
      w.origins }

def Tail.stopped (w : Tail) : Tail := { w with receiver := { w.receiver with phase := .stopped } }

def tailStep (fromStart : Bool) (w : Tail) : TailMove → Option Tail
  | .append path bytes => some (w.appended path bytes)
  | .start =>
    match w.receiver.phase with
    | .stopped => some (w.started fromStart)
    | _ => none
  | .pass =>
    match w.receiver.phase with
    | .polling [] =>
      some { w with receiver := { w.receiver with phase := .polling (listing w.files) } }
    | _ => none
  | .look =>
    match w.receiver.phase with
    | .polling (path :: todo) =>
      match w.files.get? path with
      | none => some { w with receiver := { w.receiver with phase := .polling todo } }
      | some bytes =>
        some { w with
          receiver := w.receiver.look fromStart path bytes.length todo
          origins := w.origins.setDefault path
            (w.receiver.known fromStart path bytes.length) }
    | _ => none
  | .read ok =>
    match w.receiver.phase with
    | .reading path offset size todo =>
      if ok then some { w with receiver := w.receiver.read path (w.bytes path) offset size todo }
      else some w.stopped
    | _ => none
  | .emit ok =>
    match w.receiver.phase with
    | .emitting path line lines todo =>
      if ok then
        some { w with
          receiver := { w.receiver with phase := emitPhase path lines todo }
          emitted := w.emitted ++ [(path, line)] }
      else some w.stopped
    | _ => none

def tailMachine (fromStart : Bool) : Machine Tail TailMove where
  start w := w.receiver = {} ∧ w.emitted = [] ∧ w.origins = .empty
  step := tailStep fromStart

/-! ### Lines of a tailed file -/

def AtLine (bytes : List UInt8) : Prop := Ended (decode bytes)

instance (bytes : List UInt8) : Decidable (AtLine bytes) :=
  inferInstanceAs (Decidable ((splitter (decode bytes)).current = []))

def textLines (bytes : List UInt8) : List Line := (endedLines (decode bytes)).filter hasText

def linesAfter (origin : Nat) (bytes : List UInt8) : List Line :=
  (textLines bytes).drop (textLines (bytes.take origin)).length

variable {a : List UInt8}

theorem textLines_append (h : AtLine a) (b : List UInt8) :
    textLines (a ++ b) = textLines a ++ textLines b := by
  unfold textLines
  rw [decode_append (whole_of_ended h)]
  exact (endedLines_append (by rfl) h _).1

theorem atLine_append (h : AtLine a) (b : List UInt8) : AtLine (a ++ b) ↔ AtLine b := by
  have hended := (@endedLines_append hasText (by rfl) _ h (decode b)).2
  unfold AtLine
  rw [decode_append (whole_of_ended h)]
  exact hended

/-! ### A file that was read up to an offset -/

/-- What came out of a file that was read from `origin` up to `pos`. -/
structure ReadTo (bytes : List UInt8) (origin pos : Nat) (out : List Line) : Prop where
  le : origin ≤ pos
  le_length : pos ≤ bytes.length
  from_line : AtLine (bytes.take origin)
  to_line : AtLine (bytes.take pos)
  out_eq : out = textLines ((bytes.take pos).drop origin)

section ReadTo

variable {bytes : List UInt8} {origin pos : Nat} {out : List Line}

theorem readTo_start (hle : origin ≤ bytes.length) (hline : AtLine (bytes.take origin)) :
    ReadTo bytes origin origin [] := by
  refine ⟨le_rfl, hle, hline, hline, ?_⟩
  rw [drop_eq_nil_of_le (length_take_le _ _)]
  rfl

theorem ReadTo.append (h : ReadTo bytes origin pos out) (more : List UInt8) :
    ReadTo (bytes ++ more) origin pos out := by
  have hpos : (bytes ++ more).take pos = bytes.take pos := take_append_of_le_length h.le_length
  have horigin : (bytes ++ more).take origin = bytes.take origin :=
    take_append_of_le_length (h.le.trans h.le_length)
  refine ⟨h.le, ?_, ?_, ?_, ?_⟩
  · rw [length_append]
    exact Nat.le_add_right_of_le h.le_length
  · rw [horigin]
    exact h.from_line
  · rw [hpos]
    exact h.to_line
  · rw [hpos]
    exact h.out_eq

theorem take_split {a b : Nat} (h : a ≤ b) (bytes : List UInt8) :
    bytes.take b = bytes.take a ++ (bytes.drop a).take (b - a) := by
  conv_lhs => rw [← Nat.add_sub_cancel' h]
  exact take_add

theorem ReadTo.chunk_line (h : ReadTo bytes origin pos out) :
    AtLine ((bytes.take pos).drop origin) := by
  have hsplit : bytes.take pos = bytes.take origin ++ (bytes.take pos).drop origin := by
    conv_lhs => rw [← take_append_drop origin (bytes.take pos)]
    rw [take_take, Nat.min_eq_left h.le]
  have hto := h.to_line
  rw [hsplit] at hto
  exact (atLine_append h.from_line _).mp hto

/-- **A read that ends where a line ends** adds the lines that it read. -/
theorem ReadTo.extend (h : ReadTo bytes origin pos out) {size : Nat} (hpos : pos ≤ size)
    (hsize : size ≤ bytes.length) (hline : AtLine (bytes.take size)) :
    ReadTo bytes origin size
      (out ++ (splitLines (readChunk bytes pos size)).filter hasText) := by
  have hsplit := take_split hpos bytes
  have hchunk : AtLine ((bytes.drop pos).take (size - pos)) := by
    rw [hsplit] at hline
    exact (atLine_append h.to_line _).mp hline
  refine ⟨h.le.trans hpos, hsize, h.from_line, hline, ?_⟩
  have hlength : origin ≤ (bytes.take pos).length := by
    rw [length_take, Nat.min_eq_left h.le_length]
    exact h.le
  rw [hsplit, drop_append_of_le_length hlength, textLines_append h.chunk_line, ← h.out_eq]
  unfold readChunk textLines
  rw [splitLines_of_ended hchunk]

theorem ReadTo.linesAfter_eq (h : ReadTo bytes origin pos out) :
    linesAfter origin bytes = out ++ textLines (bytes.drop pos) := by
  have hpos : textLines bytes = textLines (bytes.take pos) ++ textLines (bytes.drop pos) := by
    conv_lhs => rw [← take_append_drop pos bytes]
    exact textLines_append h.to_line _
  have horigin : textLines (bytes.take pos) = textLines (bytes.take origin) ++ out := by
    conv_lhs => rw [← take_append_drop origin (bytes.take pos)]
    rw [take_take, Nat.min_eq_left h.le, textLines_append h.from_line, ← h.out_eq]
  unfold linesAfter
  rw [hpos, horigin, append_assoc, drop_left]

end ReadTo

def FileReceiver.pendingOf (r : FileReceiver) (path : String) : List Line :=
  match r.phase with
  | .emitting p line lines _ => if p = path then line :: lines else []
  | _ => []

def Tail.out (w : Tail) (path : String) : List Line :=
  w.emittedOf path ++ w.receiver.pendingOf path

structure FileSound (fromStart : Bool) (w : Tail) (path : String) : Prop where
  unseen : w.origins.get? path = none → w.receiver.offsets.get? path = none ∧ w.out path = []
  read : ∀ origin, w.origins.get? path = some origin →
    ReadTo (w.bytes path) origin ((w.receiver.offsets.get? path).getD 0) (w.out path)
  unset : w.receiver.offsets.get? path = none → w.origins.get? path ≠ none → fromStart = true

structure Sound (fromStart : Bool) (w : Tail) : Prop where
  files : ∀ path, FileSound fromStart w path
  fresh : w.receiver.phase = .stopped → ∀ path, w.origins.get? path = none
  reading : ∀ path offset size todo, w.receiver.phase = .reading path offset size todo →
    w.origins.get? path ≠ none ∧ offset = (w.receiver.offsets.get? path).getD 0 ∧
      offset ≤ size ∧ size ≤ (w.bytes path).length ∧ AtLine ((w.bytes path).take size)

/-! ### One step -/

/-- **The condition on a run**: the offset a file is first read from and the sizes the receiver sees
end a line, and neither a read nor an emission fails. -/
def OnLines (fromStart : Bool) (w : Tail) : TailMove → Prop
  | .append _ _ => True
  | .pass => True
  | .start => ∀ path, AtLine ((w.bytes path).take (firstOffset fromStart (w.bytes path).length))
  | .look => ∀ path todo, w.receiver.phase = .polling (path :: todo) → AtLine (w.bytes path)
  | .read ok => ok = true
  | .emit ok => ok = true

section Steps

variable {fromStart : Bool} {w w' : Tail}

theorem bytes_appended (w : Tail) (p path : String) (more : List UInt8) :
    (w.appended p more).bytes path = w.bytes path ++ if path = p then more else [] := by
  unfold Tail.appended Tail.bytes
  dsimp only
  rw [Dict.get?_set]
  by_cases hp : path = p
  · rw [if_pos hp, if_pos hp, hp]
    rfl
  · rw [if_neg hp, if_neg hp, append_nil]

theorem Sound.append (h : Sound fromStart w) (p : String) (more : List UInt8) :
    Sound fromStart (w.appended p more) := by
  constructor
  · intro path
    constructor
    · exact (h.files path).unseen
    · intro origin horigin
      rw [bytes_appended]
      exact ((h.files path).read origin horigin).append _
    · exact (h.files path).unset
  · exact h.fresh
  · intro path offset size todo hphase
    obtain ⟨hseen, hoffset, hle, hsize, hline⟩ := h.reading path offset size todo hphase
    refine ⟨hseen, hoffset, hle, ?_, ?_⟩
    · rw [bytes_appended, length_append]
      exact Nat.le_add_right_of_le hsize
    · rw [bytes_appended, take_append_of_le_length hsize]
      exact hline

variable {path : String} {r : FileReceiver} {todo : List String}

theorem mem_listing {files : Files} : path ∈ listing files ↔ path ∈ files.keys :=
  mem_insertionSort _

theorem Sound.start (h : Sound fromStart w) (hphase : w.receiver.phase = .stopped)
    (hlines : OnLines fromStart w .start) : Sound fromStart (w.started fromStart) := by
  have hnone : ∀ path, w.origins.get? path = none := h.fresh hphase
  have hset : ∀ path, (w.started fromStart).receiver.offsets.get? path =
      if path ∈ listing w.files then some (firstOffset fromStart (w.bytes path).length)
      else none := by
    intro path
    refine (get?_foldl_set (fun p => firstOffset fromStart (w.bytes p).length) _ _ _).trans ?_
    rw [((h.files path).unseen (hnone path)).1]
  have horigins : ∀ path, (w.started fromStart).origins.get? path =
      if path ∈ listing w.files then some (firstOffset fromStart (w.bytes path).length)
      else none := by
    intro path
    exact get?_foldl_setDefault (fun p => firstOffset fromStart (w.bytes p).length) _ (hnone path)
  have hout : ∀ path, (w.started fromStart).out path = [] := by
    intro path
    have hempty := ((h.files path).unseen (hnone path)).2
    unfold Tail.out at hempty
    exact append_eq_nil_iff.mpr ⟨(append_eq_nil_iff.mp hempty).1, rfl⟩
  constructor
  · intro path
    by_cases hmem : path ∈ listing w.files
    · have horigin := (horigins path).trans (if_pos hmem)
      have hoffset := (hset path).trans (if_pos hmem)
      constructor
      · intro hunseen
        rw [horigin] at hunseen
        cases hunseen
      · intro origin heq
        rw [horigin] at heq
        cases heq
        rw [hout, hoffset]
        refine readTo_start ?_ (hlines path)
        change firstOffset fromStart (w.bytes path).length ≤ (w.bytes path).length
        unfold firstOffset
        split
        · exact Nat.zero_le _
        · exact le_rfl
      · intro hunset
        rw [hoffset] at hunset
        cases hunset
    · have horigin := (horigins path).trans (if_neg hmem)
      have hoffset := (hset path).trans (if_neg hmem)
      constructor
      · intro _
        exact ⟨hoffset, hout path⟩
      · intro origin heq
        rw [horigin] at heq
        cases heq
      · intro _ hseen
        exact absurd horigin hseen
  · intro hstopped
    cases hstopped
  · intro path offset size todo hreading
    cases hreading

theorem FileSound.congr (h : FileSound fromStart w path) (hbytes : w'.bytes path = w.bytes path)
    (horigin : w'.origins.get? path = w.origins.get? path)
    (hoffset : w'.receiver.offsets.get? path = w.receiver.offsets.get? path)
    (hout : w'.out path = w.out path) : FileSound fromStart w' path := by
  constructor
  · rw [horigin, hoffset, hout]
    exact h.unseen
  · rw [horigin, hoffset, hout, hbytes]
    exact h.read
  · rw [horigin, hoffset]
    exact h.unset

theorem out_of_polling {todo' : List String}
    (hphase : w.receiver.phase = .polling todo) (hr : r.phase = .polling todo') (path : String) :
    ({ w with receiver := r } : Tail).out path = w.out path := by
  unfold Tail.out FileReceiver.pendingOf
  dsimp only
  rw [hphase, hr]
  rfl

theorem Sound.poll (h : Sound fromStart w)
    (hphase : w.receiver.phase = .polling todo) (todo' : List String) :
    Sound fromStart { w with receiver := { w.receiver with phase := .polling todo' } } := by
  constructor
  · intro path
    exact (h.files path).congr rfl rfl rfl (out_of_polling hphase rfl path)
  · intro hstopped
    cases hstopped
  · intro path offset size todo hreading
    cases hreading

variable {size : Nat}

theorem look_cases (todo : List String) (hknown : r.known fromStart path size ≤ size) :
    r.known fromStart path size = size ∧
        r.look fromStart path size todo = ⟨r.offsets.set path size, .polling todo⟩ ∨
      r.known fromStart path size < size ∧ r.look fromStart path size todo =
        ⟨r.offsets, .reading path (r.known fromStart path size) size todo⟩ := by
  unfold FileReceiver.look
  dsimp only
  rw [if_neg (Nat.not_lt.mpr hknown)]
  rcases Nat.eq_or_lt_of_le hknown with heq | hlt
  · left
    rw [if_pos (Nat.le_of_eq heq.symm)]
    exact ⟨heq, rfl⟩
  · right
    rw [if_neg (Nat.not_le.mpr hlt)]
    exact ⟨hlt, rfl⟩

theorem known_of_none (h : r.offsets.get? path = none)
    (size : Nat) : r.known fromStart path size = firstOffset fromStart size := by
  unfold FileReceiver.known
  rw [h]
  rfl

variable {offset : Nat}

theorem known_of_some (h : r.offsets.get? path = some offset) (size : Nat) :
    r.known fromStart path size = offset := by
  unfold FileReceiver.known
  rw [h]
  rfl

theorem FileSound.known (h : FileSound fromStart w path) (hline : AtLine (w.bytes path)) :
    ∃ origin, (w.origins.setDefault path
        (w.receiver.known fromStart path (w.bytes path).length)).get? path = some origin ∧
      ReadTo (w.bytes path) origin (w.receiver.known fromStart path (w.bytes path).length)
        (w.out path) := by
  cases horigin : w.origins.get? path with
  | none =>
    obtain ⟨hnone, hempty⟩ := h.unseen horigin
    refine ⟨w.receiver.known fromStart path (w.bytes path).length, ?_, ?_⟩
    · rw [Dict.get?_setDefault, if_pos rfl, horigin, Option.getD_none]
    · rw [known_of_none hnone, hempty]
      unfold firstOffset
      split
      · exact readTo_start (Nat.zero_le _) ended_nil
      · exact readTo_start le_rfl (by rw [take_length]; exact hline)
  | some origin =>
    have hread := h.read origin horigin
    refine ⟨origin, ?_, ?_⟩
    · rw [Dict.get?_setDefault, if_pos rfl, horigin, Option.getD_some]
    cases hoffset : w.receiver.offsets.get? path with
    | some offset =>
      rw [known_of_some hoffset]
      rw [hoffset] at hread
      exact hread
    | none =>
      have htrue := h.unset hoffset (by rw [horigin]; exact Option.some_ne_none _)
      rw [known_of_none hoffset, htrue]
      rw [hoffset] at hread
      exact hread

theorem Sound.look (h : Sound fromStart w)
    (hphase : w.receiver.phase = .polling (path :: todo)) (hline : AtLine (w.bytes path)) :
    Sound fromStart { w with
      receiver := w.receiver.look fromStart path (w.bytes path).length todo
      origins := w.origins.setDefault path
        (w.receiver.known fromStart path (w.bytes path).length) } := by
  obtain ⟨origin, horigin, hread⟩ := (h.files path).known hline
  have hother : ∀ p, p ≠ path → (w.origins.setDefault path
      (w.receiver.known fromStart path (w.bytes path).length)).get? p = w.origins.get? p := by
    intro p hp
    rw [Dict.get?_setDefault, if_neg hp]
  rcases look_cases todo hread.le_length with ⟨hend, hlook⟩ | ⟨hlt, hlook⟩
  · rw [hlook]
    have hout : ∀ p, ({ w with
        receiver := ⟨w.receiver.offsets.set path (w.bytes path).length, .polling todo⟩
        origins := w.origins.setDefault path
          (w.receiver.known fromStart path (w.bytes path).length) } : Tail).out p = w.out p :=
      fun p => out_of_polling hphase rfl p
    constructor
    · intro p
      by_cases hp : p = path
      · subst hp
        constructor
        · intro hunseen
          rw [horigin] at hunseen
          cases hunseen
        · intro o ho
          rw [horigin] at ho
          cases ho
          rw [hout, Dict.get?_set_self, Option.getD_some]
          rw [hend] at hread
          exact hread
        · intro hunset
          rw [Dict.get?_set_self] at hunset
          cases hunset
      · exact (h.files p).congr rfl (hother p hp) (Dict.get?_set_of_ne _ _ hp) (hout p)
    · intro hstopped
      cases hstopped
    · intro p offset size rest hreading
      cases hreading
  · rw [hlook]
    have hknown : w.receiver.known fromStart path (w.bytes path).length =
        (w.receiver.offsets.get? path).getD 0 ∧
          (w.receiver.offsets.get? path = none → fromStart = true) := by
      cases hoffset : w.receiver.offsets.get? path with
      | some offset =>
        refine ⟨known_of_some hoffset _, ?_⟩
        intro hnone
        cases hnone
      | none =>
        rw [known_of_none hoffset] at hlt ⊢
        unfold firstOffset at hlt ⊢
        cases fromStart with
        | true => exact ⟨rfl, fun _ => rfl⟩
        | false => exact absurd hlt (Nat.lt_irrefl _)
    have hout : ∀ p, ({ w with
        receiver := ⟨w.receiver.offsets, .reading path
          (w.receiver.known fromStart path (w.bytes path).length) (w.bytes path).length todo⟩
        origins := w.origins.setDefault path
          (w.receiver.known fromStart path (w.bytes path).length) } : Tail).out p = w.out p := by
      intro p
      unfold Tail.out FileReceiver.pendingOf
      rw [hphase]
      rfl
    constructor
    · intro p
      by_cases hp : p = path
      · subst hp
        constructor
        · intro hunseen
          rw [horigin] at hunseen
          cases hunseen
        · intro o ho
          rw [horigin] at ho
          cases ho
          rw [hout, ← hknown.1]
          exact hread
        · intro hunset _
          exact hknown.2 hunset
      · exact (h.files p).congr rfl (hother p hp) rfl (hout p)
    · intro hstopped
      cases hstopped
    · intro p offset size rest hreading
      cases hreading
      refine ⟨?_, hknown.1, hlt.le, le_rfl, ?_⟩
      · rw [horigin]
        exact Option.some_ne_none _
      · change AtLine ((w.bytes path).take (w.bytes path).length)
        rw [take_length]
        exact hline

theorem pendingOf_emitPhase (offsets : Dict String Nat) (path : String) (lines : List Line)
    (todo : List String) (p : String) :
    FileReceiver.pendingOf ⟨offsets, emitPhase path lines todo⟩ p =
      if path = p then lines else [] := by
  cases lines with
  | nil => exact (ite_self _).symm
  | cons line lines => rfl

theorem Sound.read (h : Sound fromStart w)
    (hphase : w.receiver.phase = .reading path offset size todo) : Sound fromStart
      { w with receiver := w.receiver.read path (w.bytes path) offset size todo } := by
  obtain ⟨hseen, hoffset, hle, hsize, hline⟩ := h.reading path offset size todo hphase
  obtain ⟨origin, horigin⟩ := Option.ne_none_iff_exists'.mp hseen
  have hemitted : ∀ p, w.out p = w.emittedOf p := by
    intro p
    unfold Tail.out FileReceiver.pendingOf
    rw [hphase]
    exact append_nil _
  have hout : ∀ p, ({ w with
      receiver := w.receiver.read path (w.bytes path) offset size todo } : Tail).out p =
        w.out p ++ if path = p then
          (splitLines (readChunk (w.bytes path) offset size)).filter hasText else [] := by
    intro p
    rw [hemitted]
    exact congrArg (w.emittedOf p ++ ·) (pendingOf_emitPhase _ path _ todo p)
  constructor
  · intro p
    by_cases hp : p = path
    · subst hp
      constructor
      · intro hunseen
        exact absurd hunseen hseen
      · intro o ho
        have hread := (h.files p).read o ho
        rw [← hoffset] at hread
        rw [hout, if_pos rfl]
        change ReadTo (w.bytes p) o (((w.receiver.offsets.set p size).get? p).getD 0) _
        rw [Dict.get?_set_self]
        exact hread.extend hle hsize hline
      · intro hunset
        change (w.receiver.offsets.set p size).get? p = none at hunset
        rw [Dict.get?_set_self] at hunset
        cases hunset
    · refine (h.files p).congr rfl rfl (Dict.get?_set_of_ne _ _ hp) ?_
      rw [hout, if_neg (Ne.symm hp), append_nil]
  · intro hstopped
    change emitPhase path _ todo = _ at hstopped
    unfold emitPhase at hstopped
    split at hstopped <;> cases hstopped
  · intro p o sz rest hreading
    change emitPhase path _ todo = _ at hreading
    unfold emitPhase at hreading
    split at hreading <;> cases hreading

theorem emittedOf_emit (w : Tail) (r : FileReceiver) (path : String) (line : Line) (p : String) :
    ({ w with receiver := r, emitted := w.emitted ++ [(path, line)] } : Tail).emittedOf p =
      w.emittedOf p ++ if path = p then [line] else [] := by
  unfold Tail.emittedOf
  dsimp only
  rw [filter_append, map_append]
  by_cases hp : path = p
  · have htest : ((path, line).1 == p) = true := beq_iff_eq.mpr hp
    rw [if_pos hp, filter_cons, if_pos htest]
    rfl
  · have htest : ¬ ((path, line).1 == p) = true := fun h => hp (beq_iff_eq.mp h)
    rw [if_neg hp, filter_cons, if_neg htest]
    rfl

theorem Sound.emit (h : Sound fromStart w) {line : Line} {lines : List Line}
    (hphase : w.receiver.phase = .emitting path line lines todo) :
    Sound fromStart { w with
      receiver := { w.receiver with phase := emitPhase path lines todo }
      emitted := w.emitted ++ [(path, line)] } := by
  have hout : ∀ p, ({ w with
      receiver := { w.receiver with phase := emitPhase path lines todo }
      emitted := w.emitted ++ [(path, line)] } : Tail).out p = w.out p := by
    intro p
    unfold Tail.out
    rw [emittedOf_emit]
    dsimp only
    rw [pendingOf_emitPhase]
    unfold FileReceiver.pendingOf
    rw [hphase, append_assoc]
    dsimp only
    split <;> rfl
  constructor
  · intro p
    exact (h.files p).congr rfl rfl rfl (hout p)
  · intro hstopped
    change emitPhase path _ todo = _ at hstopped
    unfold emitPhase at hstopped
    split at hstopped <;> cases hstopped
  · intro p o sz rest hreading
    change emitPhase path _ todo = _ at hreading
    unfold emitPhase at hreading
    split at hreading <;> cases hreading

theorem sound_start (h : (tailMachine fromStart).start w) : Sound fromStart w := by
  obtain ⟨hreceiver, hemitted, horigins⟩ := h
  have hnone : ∀ path, w.origins.get? path = none := by
    intro path
    rw [horigins]
    rfl
  constructor
  · intro path
    constructor
    · intro _
      unfold Tail.out Tail.emittedOf FileReceiver.pendingOf
      rw [hreceiver, hemitted]
      exact ⟨rfl, rfl⟩
    · intro origin horigin
      rw [hnone] at horigin
      cases horigin
    · intro _ hseen
      exact absurd (hnone path) hseen
  · intro _
    exact hnone
  · intro path offset size todo hreading
    rw [hreceiver] at hreading
    cases hreading

/-- **One step**: what meets the condition keeps the receiver sound. -/
theorem Sound.step {move : TailMove} (h : Sound fromStart w) (hmove : OnLines fromStart w move)
    (hstep : tailStep fromStart w move = some w') : Sound fromStart w' := by
  cases move with
  | append path more =>
    cases hstep
    exact h.append path more
  | start =>
    dsimp only [tailStep] at hstep
    split at hstep
    · rename_i hphase
      cases hstep
      exact h.start hphase hmove
    · cases hstep
  | pass =>
    dsimp only [tailStep] at hstep
    split at hstep
    · rename_i hphase
      cases hstep
      exact h.poll hphase _
    · cases hstep
  | look =>
    dsimp only [tailStep] at hstep
    split at hstep
    · rename_i path todo hphase
      split at hstep
      · cases hstep
        exact h.poll hphase _
      · rename_i bytes hbytes
        have hw : w.bytes path = bytes := by
          unfold Tail.bytes
          rw [hbytes]
          rfl
        rw [← hw] at hstep
        cases hstep
        exact h.look hphase (hmove path todo hphase)
    · cases hstep
  | read ok =>
    dsimp only [tailStep] at hstep
    split at hstep
    · rename_i path offset size todo hphase
      rw [if_pos (show ok = true from hmove)] at hstep
      cases hstep
      exact h.read hphase
    · cases hstep
  | emit ok =>
    dsimp only [tailStep] at hstep
    split at hstep
    · rename_i path line lines todo hphase
      rw [if_pos (show ok = true from hmove)] at hstep
      cases hstep
      exact h.emit hphase
    · cases hstep

theorem sound_of_reaches (h : (tailMachine fromStart).Reaches (OnLines fromStart) w) :
    Sound fromStart w :=
  Machine.invariant (I := Sound fromStart) (fun _ hs => sound_start hs)
    (fun _ _ _ hI hP ht => hI.step hP ht) h

end Steps

end AgenticKibana.Receivers
