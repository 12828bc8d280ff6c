import AgenticKibana.Library.Dict
import AgenticKibana.Library.TextLines

/-!
# Common Event Format

A record is one line: `CEF:`, seven fields that end with `|`, and an extension of `key=value`
pairs.  A backslash keeps a separator from separating; a value ends where white space and the next
key begin.  A text is a row of blocks, a run of backslashes and the character after it, and every
replacement works on one block at a time; so does the escaping.
-/

namespace AgenticKibana.Receivers

open AgenticKibana.Library
open AgenticKibana.Library.TextLines

abbrev Text := List Char

/-- `\w` of a pattern: letters, digits and `_` in ASCII, and what the character database adds to
them, but no white space. -/
structure WordClass where
  holds : Char → Bool
  ascii : ∀ c : Char, c.toNat < 128 → holds c = (c.isAlphanum || c == '_')
  space : ∀ c : Char, isSpace c = true → holds c = false

/-- `text.replace(ab, c)`. -/
def replacePair (a b c : Char) : Text → Text
  | x :: y :: rest =>
    if x = a ∧ y = b then c :: replacePair a b c rest else x :: replacePair a b c (y :: rest)
  | rest => rest

def unescapeCef (value : Text) : Text :=
  replacePair '\\' '\\' '\\'
    (replacePair '\\' '|' '|'
      (replacePair '\\' '=' '='
        (replacePair '\\' 'r' '\r'
          (replacePair '\\' 'n' '\n' value))))

/-- The loop of `_split_escaped`: how many fields may still be cut off, and what was read of this
one. -/
def splitFrom (sep : Char) : Nat → Text → Text → List Text
  | _, buf, [] => [buf]
  | left, buf, '\\' :: c :: rest => splitFrom sep left (buf ++ ['\\', c]) rest
  | left, buf, ch :: rest =>
    if ch = sep ∧ 0 < left then buf :: splitFrom sep (left - 1) [] rest
    else splitFrom sep left (buf ++ [ch]) rest

def splitEscaped (text : Text) (sep : Char) (limit : Nat) : List Text :=
  splitFrom sep (limit - 1) [] text

section Pairs

variable (word : WordClass)

/-- `[A-Za-z]`. -/
def isKeyStart (c : Char) : Bool := c.isAlpha

/-- `[\w.\[\]]`. -/
def isKeyChar (c : Char) : Bool := word.holds c || c == '.' || c == '[' || c == ']'

/-- A key and its `=` at the beginning of a text, and what follows.  The key is as long as it can
be: its characters are no `=`. -/
def matchKey : Text → Option (Text × Text)
  | [] => none
  | c :: cs =>
    if isKeyStart c then
      match cs.dropWhile (isKeyChar word) with
      | '=' :: rest => some (c :: cs.takeWhile (isKeyChar word), rest)
      | _ => none
    else none

/-- The look-ahead of `_CEF_KV_RE`: white space, a key and `=`, or the end. -/
def valueEnds (text : Text) : Bool :=
  match text with
  | [] => true
  | c :: rest =>
    (c == '\n' && rest == []) ||
      (isSpace c && (matchKey word ((c :: rest).dropWhile isSpace)).isSome)

def matchValue : Text → Option (Text × Text)
  | [] => some ([], [])
  | '\\' :: c :: rest =>
    if valueEnds word ('\\' :: c :: rest) then some ([], '\\' :: c :: rest)
    else if c = '\n' then none
    else (matchValue rest).map fun m => ('\\' :: c :: m.1, m.2)
  | c :: rest =>
    if valueEnds word (c :: rest) then some ([], c :: rest)
    else if c = '\\' ∨ c = '=' then none
    else (matchValue rest).map fun m => (c :: m.1, m.2)

/-- `_CEF_KV_RE` at the beginning of a text. -/
def matchPair (text : Text) : Option (Text × Text) :=
  (matchKey word text).bind fun m => (matchValue word m.2).map fun v => (m.1, v.1)

/-- `_CEF_KV_RE.finditer`, after some characters that belong to the last match. -/
def findPairs : Nat → Text → List (Text × Text)
  | _, [] => []
  | skip + 1, _ :: cs => findPairs skip cs
  | 0, c :: cs =>
    match matchPair word (c :: cs) with
    | some (key, value) => (key, value) :: findPairs (key.length + value.length) cs
    | none => findPairs 0 cs

end Pairs

/-! ### Records -/

abbrev Record := Dict Text Text

def cefAliases : List (String × String) :=
  [("src", "source_ip"), ("dst", "dest_ip"), ("dvc", "device_ip"), ("shost", "source_host"),
    ("dhost", "dest_host"), ("dvchost", "host"), ("suser", "username"), ("duser", "dest_user"),
    ("msg", "message"), ("act", "action"), ("proto", "protocol"), ("spt", "source_port"),
    ("dpt", "dest_port")]

/-- `_CEF_ALIASES.get`. -/
def aliasOf (key : Text) : Option Text :=
  (cefAliases.find? fun a => a.1.toList == key).map fun a => a.2.toList

def errorRecord (raw reason : Text) : Record :=
  Dict.ofList [("message".toList, raw), ("_parse_error".toList, reason)]

/-- `line.find(marker)`. -/
def findText (marker : Text) : Text → Option Nat
  | [] => if marker = [] then some 0 else none
  | c :: cs =>
    if marker.isPrefixOf (c :: cs) then some 0 else (findText marker cs).map (· + 1)

def stripSyslogPrefix (line marker : Text) : Text :=
  match findText marker line with
  | some idx => if 0 < idx then line.drop idx else line
  | none => line

/-- `CEF:`. -/
def cefMarker : Text := ['C', 'E', 'F', ':']

def addAliased (aliasName : Text → Option Text) (record : Record) (pair : Text × Text) : Record :=
  let record := record.set pair.1 pair.2
  match aliasName pair.1 with
  | some name => record.setDefault name pair.2
  | none => record

def addPair (record : Record) (pair : Text × Text) : Record :=
  addAliased aliasOf record (pair.1, unescapeCef (strip pair.2))

def headerKeys : List String :=
  ["cef_version", "vendor", "product", "device_version", "signature_id", "name", "severity",
    "_raw"]

def headerRecord (version vendor product deviceVersion signatureId name severity raw : Text) :
    Record :=
  Dict.ofList
    [("cef_version".toList, version), ("vendor".toList, vendor), ("product".toList, product),
      ("device_version".toList, deviceVersion), ("signature_id".toList, signatureId),
      ("name".toList, name), ("severity".toList, severity), ("_raw".toList, raw)]

section Lines

variable (word : WordClass)

def parseCefLine (raw : Text) : Record :=
  let line := stripSyslogPrefix raw cefMarker
  if !cefMarker.isPrefixOf line then errorRecord raw "cef: missing CEF: header".toList
  else
    match splitEscaped line '|' 8 with
    | version :: vendor :: product :: device :: signature :: name :: severity :: extension :: _ =>
      (findPairs word 0 extension).foldl addPair
        (headerRecord (version.drop cefMarker.length) (unescapeCef vendor)
          (unescapeCef product) (unescapeCef device) (unescapeCef signature)
          (unescapeCef name) (unescapeCef severity) raw)
    | parts =>
      errorRecord raw
        ("cef: expected 8 header fields, got ".toList ++ (Nat.repr parts.length).toList)

/-- `str | bytes`. -/
inductive Payload where
  | text (str : Text)
  | bytes (data : List UInt8)

def Payload.toText : Payload → Text
  | .text str => str
  | .bytes data => decode data

def parseCef (payload : Payload) : List Record :=
  let text := payload.toText
  let out := (((splitLines text).map strip).filter (· ≠ [])).map (parseCefLine word)
  if out = [] then [errorRecord (strip text) "cef: empty".toList] else out

end Lines

structure CefEvent where
  version : Text
  vendor : Text
  product : Text
  deviceVersion : Text
  signatureId : Text
  name : Text
  severity : Text
  extension : List (Text × Text)

def escapeChar (special c : Char) : Text :=
  if c = '\\' then ['\\', '\\']
  else if c = special then ['\\', special]
  else if c = '\n' then ['\\', 'n']
  else if c = '\r' then ['\\', 'r']
  else [c]

def escape (special : Char) (text : Text) : Text := text.flatMap (escapeChar special)

def CefEvent.header (e : CefEvent) : List Text :=
  [e.version, e.vendor, e.product, e.deviceVersion, e.signatureId, e.name, e.severity]

def encodePair (pair : Text × Text) : Text := pair.1 ++ '=' :: escape '=' pair.2

def CefEvent.encode (e : CefEvent) : Text :=
  cefMarker ++ (e.header.flatMap fun field => escape '|' field ++ ['|']) ++
    List.intercalate [' '] (e.extension.map encodePair)

/-! ### Escaping and back -/

open List

abbrev Block := Nat × Char

def slashes (n : Nat) : Text := List.replicate n '\\'

def render (blocks : List Block) (tail : Nat) : Text :=
  (blocks.flatMap fun b => slashes b.1 ++ [b.2]) ++ slashes tail

def Plain (blocks : List Block) : Prop := ∀ b ∈ blocks, b.2 ≠ '\\'

theorem slashes_succ (n : Nat) : slashes (n + 1) = '\\' :: slashes n := rfl

theorem render_cons (n : Nat) (x : Char) (blocks : List Block) (tail : Nat) :
    render ((n, x) :: blocks) tail = slashes n ++ x :: render blocks tail := by
  unfold render
  rw [flatMap_cons]
  simp only [append_assoc, cons_append, nil_append]

theorem render_append (blocks blocks' : List Block) (tail : Nat) :
    render (blocks ++ blocks') tail = render blocks 0 ++ render blocks' tail := by
  unfold render
  rw [flatMap_append, show slashes 0 = [] from rfl, append_nil, append_assoc]

theorem exists_render (text : Text) :
    ∃ blocks tail, Plain blocks ∧ text = render blocks tail := by
  induction text with
  | nil =>
    refine ⟨[], 0, ?_, rfl⟩
    intro b hb
    cases hb
  | cons c text ih =>
    obtain ⟨blocks, tail, hplain, rfl⟩ := ih
    by_cases hc : c = '\\'
    · subst hc
      cases blocks with
      | nil => exact ⟨[], tail + 1, hplain, rfl⟩
      | cons b blocks =>
        obtain ⟨n, x⟩ := b
        refine ⟨(n + 1, x) :: blocks, tail, ?_, ?_⟩
        · intro b hb
          rcases mem_cons.mp hb with rfl | hmem
          · exact hplain (n, x) mem_cons_self
          · exact hplain b (mem_cons_of_mem _ hmem)
        · rw [render_cons, render_cons, slashes_succ]
          rfl
    · refine ⟨(0, c) :: blocks, tail, ?_, ?_⟩
      · intro b hb
        rcases mem_cons.mp hb with rfl | hmem
        · exact hc
        · exact hplain b hmem
      · rw [render_cons]
        rfl

/-! ### Replacements -/

section Replacing

variable {b c : Char}

theorem replacePair_cons_of_ne {a x : Char} (hx : x ≠ a) (rest : Text) :
    replacePair a b c (x :: rest) = x :: replacePair a b c rest := by
  cases rest with
  | nil => rfl
  | cons y rest =>
    rw [replacePair, if_neg fun h => hx h.1]

def replaceBlock (b c : Char) (block : Block) : Block :=
  if 0 < block.1 ∧ block.2 = b then (block.1 - 1, c) else block

theorem replacePair_slashes (hb : b ≠ '\\') (n : Nat) :
    replacePair '\\' b c (slashes n) = slashes n := by
  induction n with
  | zero => rfl
  | succ n ih =>
    cases n with
    | zero => rfl
    | succ n =>
      rw [slashes_succ, slashes_succ, replacePair, if_neg fun h => hb h.2.symm,
        ← slashes_succ, ih]

theorem replacePair_run (hb : b ≠ '\\') (n : Nat) {x : Char} (hx : x ≠ '\\') (rest : Text) :
    replacePair '\\' b c (slashes n ++ x :: rest) =
      slashes (replaceBlock b c (n, x)).1 ++
        (replaceBlock b c (n, x)).2 :: replacePair '\\' b c rest := by
  induction n with
  | zero =>
    rw [show replaceBlock b c (0, x) = (0, x) from if_neg fun h => Nat.lt_irrefl _ h.1]
    exact replacePair_cons_of_ne hx rest
  | succ n ih =>
    cases n with
    | zero =>
      by_cases hxb : x = b
      · rw [show replaceBlock b c (0 + 1, x) = (0, c) from if_pos ⟨Nat.one_pos, hxb⟩]
        change replacePair '\\' b c ('\\' :: x :: rest) = c :: replacePair '\\' b c rest
        rw [replacePair, if_pos ⟨rfl, hxb⟩]
      · rw [show replaceBlock b c (0 + 1, x) = (0 + 1, x) from if_neg fun h => hxb h.2]
        change replacePair '\\' b c ('\\' :: x :: rest) =
          '\\' :: x :: replacePair '\\' b c rest
        rw [replacePair, if_neg fun h => hxb h.2, replacePair_cons_of_ne hx]
    | succ n =>
      have hkeep : replacePair '\\' b c (slashes (n + 1 + 1) ++ x :: rest) =
          '\\' :: replacePair '\\' b c (slashes (n + 1) ++ x :: rest) := by
        rw [slashes_succ, slashes_succ, cons_append, cons_append, replacePair,
          if_neg fun h => hb h.2.symm]
      rw [hkeep, ih]
      unfold replaceBlock
      by_cases hxb : x = b
      · rw [if_pos ⟨Nat.succ_pos _, hxb⟩, if_pos ⟨Nat.succ_pos _, hxb⟩]
        rfl
      · rw [if_neg fun h => hxb h.2, if_neg fun h => hxb h.2]
        rfl

variable {blocks : List Block}

theorem replacePair_render (hb : b ≠ '\\') (h : Plain blocks) (tail : Nat) :
    replacePair '\\' b c (render blocks tail) =
      render (blocks.map (replaceBlock b c)) tail := by
  induction blocks with
  | nil => exact replacePair_slashes hb tail
  | cons block blocks ih =>
    obtain ⟨n, x⟩ := block
    rw [render_cons, replacePair_run hb n (h (n, x) mem_cons_self),
      ih fun b' hb' => h b' (mem_cons_of_mem _ hb'), map_cons, render_cons]

theorem replaceBlock_plain (hc : c ≠ '\\') (h : Plain blocks) :
    Plain (blocks.map (replaceBlock b c)) := by
  intro block hblock
  obtain ⟨block, hmem, rfl⟩ := mem_map.mp hblock
  unfold replaceBlock
  split
  · exact hc
  · exact h block hmem

end Replacing

def halveBlock (block : Block) : Block := ((block.1 + 1) / 2, block.2)

theorem halve_slashes (n : Nat) :
    replacePair '\\' '\\' '\\' (slashes n) = slashes ((n + 1) / 2) := by
  induction n using Nat.twoStepInduction with
  | zero => rfl
  | one => rfl
  | more n ih _ =>
    have hhalf : (n + 2 + 1) / 2 = (n + 1) / 2 + 1 := by omega
    rw [slashes_succ, slashes_succ, replacePair, if_pos ⟨rfl, rfl⟩, ih, hhalf]
    rfl

variable {x special b : Char} {n : Nat}

theorem halve_run (n : Nat) (hx : x ≠ '\\') (rest : Text) :
    replacePair '\\' '\\' '\\' (slashes n ++ x :: rest) =
      slashes ((n + 1) / 2) ++ x :: replacePair '\\' '\\' '\\' rest := by
  induction n using Nat.twoStepInduction with
  | zero => exact replacePair_cons_of_ne hx rest
  | one =>
    change replacePair '\\' '\\' '\\' ('\\' :: x :: rest) =
      '\\' :: x :: replacePair '\\' '\\' '\\' rest
    rw [replacePair, if_neg fun h => hx h.2, replacePair_cons_of_ne hx]
  | more n ih _ =>
    have hhalf : (n + 2 + 1) / 2 = (n + 1) / 2 + 1 := by omega
    rw [slashes_succ, slashes_succ, cons_append, cons_append, replacePair,
      if_pos ⟨rfl, rfl⟩, ih, hhalf]
    rfl

variable {blocks : List Block}

theorem halve_render (h : Plain blocks) (tail : Nat) :
    replacePair '\\' '\\' '\\' (render blocks tail) =
      render (blocks.map halveBlock) ((tail + 1) / 2) := by
  induction blocks with
  | nil => exact halve_slashes tail
  | cons block blocks ih =>
    obtain ⟨n, x⟩ := block
    rw [render_cons, halve_run n (h (n, x) mem_cons_self),
      ih fun b' hb' => h b' (mem_cons_of_mem _ hb'), map_cons]
    exact (render_cons _ _ _ _).symm

def unescapeBlock (block : Block) : Block :=
  halveBlock (replaceBlock '|' '|' (replaceBlock '=' '=' (replaceBlock 'r' '\r'
    (replaceBlock 'n' '\n' block))))

/-- **The chain of replacements** works on one block at a time. -/
theorem unescapeCef_render (h : Plain blocks) (tail : Nat) : unescapeCef (render blocks tail) =
      render (blocks.map unescapeBlock) ((tail + 1) / 2) := by
  have hn : Plain (blocks.map (replaceBlock 'n' '\n')) := replaceBlock_plain (by decide) h
  have hr := replaceBlock_plain (b := 'r') (show '\r' ≠ '\\' by decide) hn
  have heq := replaceBlock_plain (b := '=') (show '=' ≠ '\\' by decide) hr
  have hbar := replaceBlock_plain (b := '|') (show '|' ≠ '\\' by decide) heq
  unfold unescapeCef
  rw [replacePair_render (by decide) h, replacePair_render (by decide) hn,
    replacePair_render (by decide) hr, replacePair_render (by decide) heq, halve_render hbar]
  simp only [map_map]
  rfl

def escapeBlock (special : Char) (block : Block) : Block :=
  if block.2 = special then (2 * block.1 + 1, special)
  else if block.2 = '\n' then (2 * block.1 + 1, 'n')
  else if block.2 = '\r' then (2 * block.1 + 1, 'r')
  else (2 * block.1, block.2)

theorem escape_append (special : Char) (a b : Text) :
    escape special (a ++ b) = escape special a ++ escape special b :=
  flatMap_append

theorem escape_cons (special c : Char) (text : Text) :
    escape special (c :: text) = escapeChar special c ++ escape special text :=
  flatMap_cons

theorem escape_slashes (special : Char) (n : Nat) :
    escape special (slashes n) = slashes (2 * n) := by
  induction n with
  | zero => rfl
  | succ n ih =>
    rw [slashes_succ, escape_cons, ih, show 2 * (n + 1) = 2 * n + 1 + 1 by omega,
      slashes_succ, slashes_succ]
    rfl

theorem slashes_append_cons (n : Nat) (rest : Text) :
    slashes n ++ '\\' :: rest = slashes (n + 1) ++ rest := by
  have hsucc : slashes (n + 1) = slashes n ++ ['\\'] := replicate_succ'
  rw [hsucc, append_assoc]
  rfl

theorem escape_render (h : Plain blocks) (tail : Nat) : escape special (render blocks tail) =
      render (blocks.map (escapeBlock special)) (2 * tail) := by
  induction blocks with
  | nil => exact escape_slashes special tail
  | cons block blocks ih =>
    obtain ⟨n, x⟩ := block
    have hx : x ≠ '\\' := h (n, x) mem_cons_self
    have htail := ih fun b hb => h b (mem_cons_of_mem _ hb)
    have hchar : slashes (2 * n) ++ escapeChar special x =
        slashes (escapeBlock special (n, x)).1 ++ [(escapeBlock special (n, x)).2] := by
      unfold escapeChar escapeBlock
      rw [if_neg hx]
      dsimp only
      split
      · exact slashes_append_cons _ _
      split
      · exact slashes_append_cons _ _
      split
      · exact slashes_append_cons _ _
      · rfl
    rw [render_cons, escape_append, escape_slashes, escape_cons, ← append_assoc, hchar,
      htail, map_cons, append_assoc]
    exact (render_cons _ _ _ _).symm

/-! ### Both -/

/-- What becomes of a block that is escaped and unescaped: after a backslash, the letters of the
line ends are taken for them. -/
def rereadBlock (block : Block) : Block :=
  if 0 < block.1 ∧ block.2 = 'n' then (block.1, '\n')
  else if 0 < block.1 ∧ block.2 = 'r' then (block.1, '\r')
  else block

theorem replaceBlock_hit (c : Char) :
    replaceBlock b c (n + 1, b) = (n, c) :=
  if_pos ⟨Nat.succ_pos n, rfl⟩

theorem replaceBlock_miss (c : Char) (h : x ≠ b) :
    replaceBlock b c (n, x) = (n, x) :=
  if_neg fun h' => h h'.2

theorem halveBlock_even (n : Nat) (x : Char) : halveBlock (2 * n, x) = (n, x) := by
  have hhalf : (2 * n + 1) / 2 = n := by omega
  unfold halveBlock
  dsimp only
  rw [hhalf]

theorem halveBlock_replaceBlock (n : Nat) (b c : Char) :
    halveBlock (replaceBlock b c (2 * n, b)) = (n, if 0 < n then c else b) := by
  unfold replaceBlock halveBlock
  cases n with
  | zero =>
    rw [if_neg fun h => Nat.lt_irrefl _ h.1, if_neg (Nat.lt_irrefl 0)]
    dsimp only
  | succ n =>
    have hhalf : (2 * (n + 1) - 1 + 1) / 2 = n + 1 := by omega
    dsimp only
    rw [if_pos ⟨by omega, rfl⟩, if_pos (Nat.succ_pos n)]
    dsimp only
    rw [hhalf]

theorem replaceBlock_skip {b' c c' : Char} (hx : x ≠ b') (hc : c ≠ b') :
    replaceBlock b' c' (replaceBlock b c (n, x)) = replaceBlock b c (n, x) := by
  unfold replaceBlock
  by_cases h : 0 < n ∧ x = b
  · rw [if_pos h]
    exact if_neg fun h' => hc h'.2
  · rw [if_neg h]
    exact if_neg fun h' => hx h'.2

/-- **A block that is escaped and unescaped.** -/
theorem unescapeBlock_escapeBlock (hspecial : special = '|' ∨ special = '=') (n : Nat) (x : Char) :
    unescapeBlock (escapeBlock special (n, x)) = rereadBlock (n, x) := by
  have hsn : special ≠ 'n' := by rcases hspecial with rfl | rfl <;> decide
  have hsr : special ≠ 'r' := by rcases hspecial with rfl | rfl <;> decide
  unfold escapeBlock unescapeBlock rereadBlock
  dsimp only
  by_cases hs : x = special
  · subst hs
    rw [if_pos rfl, replaceBlock_miss _ hsn, replaceBlock_miss _ hsr, if_neg fun h => hsn h.2,
      if_neg fun h => hsr h.2]
    rcases hspecial with rfl | rfl
    · simp (disch := decide) only [replaceBlock_miss, replaceBlock_hit, halveBlock_even]
    · simp (disch := decide) only [replaceBlock_miss, replaceBlock_hit, halveBlock_even]
  rw [if_neg hs]
  by_cases hlf : x = '\n'
  · subst hlf
    rw [if_pos rfl, if_neg fun h => absurd h.2 (by decide), if_neg fun h => absurd h.2 (by decide)]
    simp (disch := decide) only [replaceBlock_miss, replaceBlock_hit, halveBlock_even]
  rw [if_neg hlf]
  by_cases hcr : x = '\r'
  · subst hcr
    rw [if_pos rfl, if_neg fun h => absurd h.2 (by decide), if_neg fun h => absurd h.2 (by decide)]
    simp (disch := decide) only [replaceBlock_miss, replaceBlock_hit, halveBlock_even]
  rw [if_neg hcr]
  -- what is left is not escaped: after a backslash, four characters are replaced all the same
  by_cases hn : x = 'n'
  · subst hn
    simp (disch := decide) only [replaceBlock_skip]
    rw [halveBlock_replaceBlock]
    by_cases hpos : 0 < n
    · rw [if_pos hpos, if_pos ⟨hpos, trivial⟩]
    · rw [if_neg hpos, if_neg fun h => hpos h.1, if_neg fun h => hpos h.1]
  rw [replaceBlock_miss _ hn, if_neg fun h => hn h.2]
  by_cases hr : x = 'r'
  · subst hr
    simp (disch := decide) only [replaceBlock_skip]
    rw [halveBlock_replaceBlock]
    by_cases hpos : 0 < n
    · rw [if_pos hpos, if_pos ⟨hpos, trivial⟩]
    · rw [if_neg hpos, if_neg fun h => hpos h.1]
  rw [replaceBlock_miss _ hr, if_neg fun h => hr h.2]
  by_cases heq : x = '='
  · subst heq
    simp (disch := decide) only [replaceBlock_skip]
    rw [halveBlock_replaceBlock, ite_self]
  rw [replaceBlock_miss _ heq]
  by_cases hbar : x = '|'
  · subst hbar
    rw [halveBlock_replaceBlock, ite_self]
  rw [replaceBlock_miss _ hbar, halveBlock_even]

theorem rereadBlock_fst (block : Block) : (rereadBlock block).1 = block.1 := by
  unfold rereadBlock
  split
  · rfl
  split <;> rfl

theorem escapeBlock_plain (hspecial : special = '|' ∨ special = '=') (h : Plain blocks) :
    Plain (blocks.map (escapeBlock special)) := by
  intro block hblock
  obtain ⟨block, hmem, rfl⟩ := mem_map.mp hblock
  unfold escapeBlock
  split
  · change special ≠ '\\'
    rcases hspecial with rfl | rfl <;> decide
  split
  · exact (by decide : 'n' ≠ '\\')
  split
  · exact (by decide : 'r' ≠ '\\')
  · exact h block hmem

theorem unescape_escape_render (hspecial : special = '|' ∨ special = '=') (h : Plain blocks)
    (tail : Nat) : unescapeCef (escape special (render blocks tail)) =
      render (blocks.map rereadBlock) tail := by
  have hhalf : (2 * tail + 1) / 2 = tail := by omega
  have hblocks : (blocks.map (escapeBlock special)).map unescapeBlock =
      blocks.map rereadBlock := by
    rw [map_map]
    apply map_congr_left
    intro block _
    exact unescapeBlock_escapeBlock hspecial block.1 block.2
  rw [escape_render h, unescapeCef_render (escapeBlock_plain hspecial h), hhalf, hblocks]

theorem render_reread_eq {tail : Nat}
    (h : render (blocks.map rereadBlock) tail = render blocks tail) :
    ∀ b ∈ blocks, rereadBlock b = b := by
  induction blocks with
  | nil =>
    intro b hb
    cases hb
  | cons block blocks ih =>
    obtain ⟨n, x⟩ := block
    have hfst := rereadBlock_fst (n, x)
    have hmap : ((n, x) :: blocks).map rereadBlock =
        (n, (rereadBlock (n, x)).2) :: blocks.map rereadBlock := by
      rw [map_cons]
      exact congrArg (· :: blocks.map rereadBlock) (Prod.ext hfst rfl)
    rw [hmap, render_cons, render_cons] at h
    obtain ⟨hx, hrest⟩ := cons_eq_cons.mp (append_cancel_left h)
    intro b hb
    rcases mem_cons.mp hb with rfl | hmem
    · exact Prod.ext hfst hx
    · exact ih hrest b hmem

def LineEndLike (text : Text) : Prop := ['\\', 'n'] <:+: text ∨ ['\\', 'r'] <:+: text

instance (text : Text) : Decidable (LineEndLike text) := inferInstanceAs (Decidable (_ ∨ _))

theorem infix_of_block (tail : Nat) (h : (n + 1, x) ∈ blocks) :
    ['\\', x] <:+: render blocks tail := by
  obtain ⟨before, after, rfl⟩ := append_of_mem h
  refine ⟨render before 0 ++ slashes n, render after tail, ?_⟩
  rw [render_append, render_cons, ← slashes_append_cons]
  simp only [append_assoc, cons_append, nil_append]

theorem exists_block_of_infix {text : Text} (hx : x ≠ '\\') (h : ['\\', x] <:+: text) :
    ∃ blocks tail n, Plain blocks ∧ text = render blocks tail ∧ (n + 1, x) ∈ blocks := by
  obtain ⟨before, after, rfl⟩ := h
  obtain ⟨blocks, n, hplain, rfl⟩ := exists_render before
  obtain ⟨blocks', tail, hplain', rfl⟩ := exists_render after
  refine ⟨blocks ++ (n + 1, x) :: blocks', tail, n, ?_, ?_, ?_⟩
  · intro b hb
    rcases mem_append.mp hb with hmem | hmem
    · exact hplain b hmem
    rcases mem_cons.mp hmem with rfl | hmem
    · exact hx
    · exact hplain' b hmem
  · rw [render_append, render_cons, ← slashes_append_cons]
    unfold render
    simp only [append_assoc, cons_append, nil_append, slashes, replicate_zero]
  · exact mem_append_right _ mem_cons_self

/-- **Unescaping undoes escaping** where no backslash stands before the letter of a line end. -/
theorem unescape_escape_iff (hspecial : special = '|' ∨ special = '=')
    (text : Text) : unescapeCef (escape special text) = text ↔ ¬ LineEndLike text := by
  constructor
  · intro h hlike
    have hbad : ∀ x, x = 'n' ∨ x = 'r' → ¬ ['\\', x] <:+: text := by
      intro x hx hinfix
      have hslash : x ≠ '\\' := by rcases hx with rfl | rfl <;> decide
      obtain ⟨blocks, tail, n, hplain, rfl, hmem⟩ := exists_block_of_infix hslash hinfix
      rw [unescape_escape_render hspecial hplain] at h
      have hsame := render_reread_eq h _ hmem
      unfold rereadBlock at hsame
      dsimp only at hsame
      rcases hx with rfl | rfl
      · rw [if_pos ⟨Nat.succ_pos n, rfl⟩] at hsame
        exact absurd (congrArg Prod.snd hsame) (by decide : ¬ '\n' = 'n')
      · rw [if_neg fun h => absurd h.2 (by decide), if_pos ⟨Nat.succ_pos n, rfl⟩] at hsame
        exact absurd (congrArg Prod.snd hsame) (by decide : ¬ '\r' = 'r')
    rcases hlike with hn | hr
    · exact hbad 'n' (.inl rfl) hn
    · exact hbad 'r' (.inr rfl) hr
  · intro h
    obtain ⟨blocks, tail, hplain, rfl⟩ := exists_render text
    rw [unescape_escape_render hspecial hplain]
    have hsame : blocks.map rereadBlock = blocks.map id := by
      apply map_congr_left
      intro block hmem
      obtain ⟨n, x⟩ := block
      unfold rereadBlock
      dsimp only
      cases n with
      | zero => rw [if_neg fun h => Nat.lt_irrefl _ h.1, if_neg fun h => Nat.lt_irrefl _ h.1]; rfl
      | succ n =>
        rw [if_neg, if_neg]
        · rfl
        · rintro ⟨-, rfl⟩
          exact h (.inr (infix_of_block tail hmem))
        · rintro ⟨-, rfl⟩
          exact h (.inl (infix_of_block tail hmem))
    rw [hsame, map_id]

end AgenticKibana.Receivers
