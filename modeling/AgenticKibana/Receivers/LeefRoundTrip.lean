import AgenticKibana.Receivers.CefRoundTrip
import AgenticKibana.Receivers.KeyValueLines

/-!
# Log Event Extended Format

A record is one line: `LEEF:` with the version, four header fields, in version 2.0 a delimiter,
and `key=value` attributes with the delimiter (by default a tab) between them.  A single
attribute, and attributes between blanks, are left to `parse_kv`, which reads fewer keys and
values than the format allows.
-/

namespace AgenticKibana.Receivers

open AgenticKibana.Library
open AgenticKibana.Library.TextLines

/-- What the character database says: `str.lower`, and the value of a digit of any script. -/
structure CharTables where
  lower : Text → Text
  digit : Char → Option Nat
  lower_short : ∀ c : Char, (lower [c]).length ≤ 2
  lower_plain : ∀ c : Char, lower [c] ≠ ['\\', 't']

/-! ### The parser -/

/-- `LEEF:`. -/
def leefMarker : Text := ['L', 'E', 'E', 'F', ':']

def leefAliases : List (String × String) :=
  [("src", "source_ip"), ("dst", "dest_ip"), ("srcPort", "source_port"), ("dstPort", "dest_port"),
    ("usrName", "username"), ("identSrc", "source_ip"), ("sev", "severity"), ("cat", "category"),
    ("proto", "protocol"), ("devTime", "timestamp")]

/-- `_LEEF_ALIASES.get`. -/
def leefAliasOf (key : Text) : Option Text :=
  (leefAliases.find? fun a => a.1.toList == key).map fun a => a.2.toList

section Parser

variable (word : WordClass) (tables : CharTables)

/-- `int(text, 16)` of two characters, where it is not negative. -/
def hexValue (text : Text) : Option Nat :=
  match strip text with
  | [a] => tables.digit a
  | ['+', a] => tables.digit a
  | ['-', a] => (tables.digit a).filter (· = 0)
  | [a, b] => (tables.digit a).bind fun high => (tables.digit b).map fun low => 16 * high + low
  | _ => none

def resolveDelim (token : Text) : Char :=
  match strip token with
  | [] => '\t'
  | c :: cs =>
    let low := tables.lower (c :: cs)
    if low ∈ ["\\t".toList, "x09".toList, "0x09".toList, "\\u0009".toList] then '\t'
    else if low.head? = some 'x' ∧ low.length = 3 then
      ((hexValue tables low.tail).map Char.ofNat).getD '\t'
    else c

/-- A token of the attributes as a pair, if there is `=` in it. -/
def attrPair (token : Text) : Option (Text × Text) :=
  let token := strip token
  if token = [] ∨ '=' ∉ token then none
  else
    some (strip (token.takeWhile (· ≠ '=')), strip ((token.dropWhile (· ≠ '=')).drop 1))

def splitLeefAttrs (attrs : Text) (delimiter : Char) : Dict Text Text :=
  if attrs = [] then Dict.empty
  else if delimiter ∈ attrs then Dict.ofList ((attrs.splitOn delimiter).filterMap attrPair)
  else if '\t' ∈ attrs then Dict.ofList ((attrs.splitOn '\t').filterMap attrPair)
  else (parseKv word attrs).head?.getD Dict.empty

/-- The delimiter, and the fields that make up the attributes: version 2 may name the
delimiter. -/
def leefDelimiter (version : Text) (fields : List Text) : Char × List Text :=
  match fields with
  | token :: rest =>
    if version.head? = some '2' ∧ token.length ≤ 4 ∧ '=' ∉ token then
      (resolveDelim tables token, rest)
    else ('\t', token :: rest)
  | [] => ('\t', [])

structure LeefLine where
  header : Record
  attributes : Dict Text Text

/-- `_parse_leef_line` up to where the attributes go into the record; an error is its text. -/
def readLeefLine (raw : Text) : Except Text LeefLine :=
  let line := stripSyslogPrefix raw leefMarker
  if !leefMarker.isPrefixOf line then .error "leef: missing LEEF: header".toList
  else
    match line.splitOn '|' with
    | first :: vendor :: product :: device :: event :: fields =>
      let version := first.drop leefMarker.length
      let (delimiter, attrs) := leefDelimiter tables version fields
      .ok
        { header := Dict.ofList
            [("leef_version".toList, version), ("vendor".toList, vendor),
              ("product".toList, product), ("device_version".toList, device),
              ("event_id".toList, event), ("_raw".toList, raw)]
          attributes := splitLeefAttrs word (['|'].intercalate attrs) delimiter }
    | parts =>
      .error ("leef: expected >=5 header fields, got ".toList ++ (Nat.repr parts.length).toList)

def LeefLine.record (line : LeefLine) : Record :=
  line.attributes.entries.foldl (addAliased leefAliasOf) line.header

def parseLeefLine (raw : Text) : Record :=
  match readLeefLine word tables raw with
  | .ok line => line.record
  | .error reason => errorRecord raw reason

def parseLeef (payload : Payload) : List Record :=
  let text := payload.toText
  let out := (nonblankLines text).map (parseLeefLine word tables)
  if out = [] then [errorRecord (strip text) "leef: empty".toList] else out

end Parser

/-! ### What the format prescribes -/

inductive LeefVersion where
  | one
  | two (delimiter : Char)

def LeefVersion.text : LeefVersion → Text
  | .one => ['1', '.', '0']
  | .two _ => ['2', '.', '0']

def LeefVersion.delimiter : LeefVersion → Char
  | .one => '\t'
  | .two d => d

def LeefVersion.field : LeefVersion → Text
  | .one => []
  | .two d => [d, '|']

structure LeefEvent where
  version : LeefVersion
  vendor : Text
  product : Text
  deviceVersion : Text
  eventId : Text
  attributes : List (Text × Text)

def LeefEvent.header (e : LeefEvent) : List Text :=
  [e.vendor, e.product, e.deviceVersion, e.eventId]

def LeefEvent.encode (e : LeefEvent) : Text :=
  leefMarker ++ e.version.text ++ '|' :: (e.header.flatMap fun field => field ++ ['|']) ++
    e.version.field ++ joinAttrs e.version.delimiter e.attributes

/-- The events of the format: fields without bars, a delimiter that is no bar, no `=` and no line
boundary, and some attributes with distinct keys, trimmed and without `=`, and trimmed values
without the delimiter, tabs and line boundaries. -/
structure LeefEvent.Valid (e : LeefEvent) : Prop where
  fields : ∀ field ∈ e.header, '|' ∉ field
  delimiter : e.version.delimiter ≠ '|' ∧ e.version.delimiter ≠ '=' ∧
    isBreak e.version.delimiter = false
  some_attribute : e.attributes ≠ []
  distinct : (e.attributes.map Prod.fst).Nodup
  keys : ∀ attr ∈ e.attributes, Trimmed attr.1 ∧ '=' ∉ attr.1
  values : ∀ attr ∈ e.attributes, Trimmed attr.2 ∧ e.version.delimiter ∉ attr.2 ∧ '\t' ∉ attr.2 ∧
    ∀ c ∈ attr.2, isBreak c = false

/-- **The attributes are returned**: the line is read as one record, which holds the attributes
that were found, and these are the attributes of the event (beside the `_raw` of `parse_kv`). -/
def LeefRestored (word : WordClass) (tables : CharTables) (e : LeefEvent) : Prop :=
  ∃ line, readLeefLine word tables e.encode = .ok line ∧
    parseLeef word tables (.text e.encode) = [line.record] ∧
    (∀ attr ∈ e.attributes,
      line.attributes.get? attr.1 = some attr.2 ∧ line.record.get? attr.1 = some attr.2) ∧
    ∀ key ∈ line.attributes.keys, key ∈ e.attributes.map Prod.fst ∨ key = "_raw".toList

/-- The delimiter as `_resolve_delim` takes it. -/
def LeefVersion.resolved (v : LeefVersion) : Char :=
  if isSpace v.delimiter then '\t' else v.delimiter

/-- The events whose attributes are returned: one line, no key with the delimiter, and either the
attributes are split at the delimiter or `parse_kv` can read them. -/
structure LeefReadable (word : WordClass) (e : LeefEvent) : Prop where
  oneLine : (∀ field ∈ e.header, ∀ c ∈ field, isBreak c = false) ∧
    ∀ attr ∈ e.attributes, ∀ c ∈ attr.1, isBreak c = false
  unsplit : ∀ attr ∈ e.attributes, e.version.resolved ∉ attr.1
  split_or_kv : (2 ≤ e.attributes.length ∧ e.version.resolved = e.version.delimiter) ∨
    KvReadable word e.attributes

/-! ### Writing attributes and reading them -/

open List

variable {sep : Char} {attr : Text × Text} {text : Text}

theorem notMem_of_mem_splitOn {piece : Text} (h : piece ∈ text.splitOn sep) : sep ∉ piece := by
  induction text generalizing piece with
  | nil =>
    rw [splitOn_nil, mem_singleton] at h
    rw [h]
    exact not_mem_nil
  | cons c text ih =>
    rw [splitOn_cons_eq_if_modifyHead] at h
    split at h
    · rcases mem_cons.mp h with rfl | hrest
      · exact not_mem_nil
      · exact ih hrest
    · rename_i hc
      obtain ⟨first, rest, hsplit⟩ := exists_cons_of_ne_nil (splitOn_ne_nil sep text)
      rw [hsplit, modifyHead_cons] at h
      rcases mem_cons.mp h with rfl | hrest
      · rw [mem_cons, not_or]
        refine ⟨fun heq => hc (by simp [heq]), ih (by rw [hsplit]; exact mem_cons_self)⟩
      · exact ih (by rw [hsplit]; exact mem_cons_of_mem _ hrest)

theorem intercalate_append {front back : List Text} (hback : back ≠ []) :
    [sep].intercalate (front ++ back) =
      (front.flatMap fun piece => piece ++ [sep]) ++ [sep].intercalate back := by
  induction front with
  | nil => rfl
  | cons piece front ih =>
    obtain ⟨next, rest, hnext⟩ := exists_cons_of_ne_nil
      (append_ne_nil_of_right_ne_nil front hback)
    rw [cons_append, hnext, intercalate_cons_cons, ← hnext, ih, flatMap_cons]
    simp

theorem splitOn_fields {fields : List Text} (hfields : ∀ field ∈ fields, sep ∉ field)
    (text : Text) :
    ((fields.flatMap fun field => field ++ [sep]) ++ text).splitOn sep =
      fields ++ text.splitOn sep := by
  have hne : text.splitOn sep ≠ [] := splitOn_ne_nil sep text
  have htext : [sep].intercalate (fields ++ text.splitOn sep) =
      (fields.flatMap fun field => field ++ [sep]) ++ text := by
    rw [intercalate_append hne, intercalate_splitOn]
  rw [← htext, splitOn_intercalate sep ?_ (append_ne_nil_of_right_ne_nil _ hne)]
  intro piece hpiece
  rcases mem_append.mp hpiece with hfield | hrest
  · exact hfields piece hfield
  · exact notMem_of_mem_splitOn hrest

/-- Trimmed keys and values, the keys without `=`. -/
def Trim (attrs : List (Text × Text)) : Prop :=
  ∀ attr ∈ attrs, Trimmed attr.1 ∧ '=' ∉ attr.1 ∧ Trimmed attr.2

theorem encodeAttr_trimmed (hkey : Trimmed attr.1) (hvalue : Trimmed attr.2) :
    Trimmed (encodeAttr attr) := by
  obtain ⟨key, value⟩ := attr
  constructor
  · intro c hc
    cases key with
    | nil =>
      cases hc
      decide
    | cons x key =>
      cases hc
      exact hkey.1 _ rfl
  · intro c hc
    cases value with
    | nil =>
      rw [encodeAttr, getLast?_concat] at hc
      cases hc
      decide
    | cons x value =>
      rw [encodeAttr, getLast?_append_of_ne_nil _ (cons_ne_nil _ _),
        getLast?_cons_cons] at hc
      exact hvalue.2 c hc

theorem attrPair_encodeAttr (hkey : Trimmed attr.1) (heq : '=' ∉ attr.1)
    (hvalue : Trimmed attr.2) : attrPair (encodeAttr attr) = some attr := by
  have hplain : ∀ c ∈ attr.1, decide (c ≠ '=') = true := by
    intro c hc
    exact decide_eq_true fun h => heq (h ▸ hc)
  have htake : (encodeAttr attr).takeWhile (· ≠ '=') = attr.1 := by
    rw [encodeAttr, takeWhile_append_of_pos hplain]
    simp
  have hdrop : (encodeAttr attr).dropWhile (· ≠ '=') = '=' :: attr.2 := by
    rw [encodeAttr, dropWhile_append_of_pos hplain]
    simp
  have hmem : '=' ∈ encodeAttr attr := mem_append_right _ mem_cons_self
  have hne : encodeAttr attr ≠ [] := ne_nil_of_mem hmem
  simp only [attrPair, strip_of_trimmed (encodeAttr_trimmed hkey hvalue), hne, hmem, htake, hdrop,
    not_true_eq_false, or_self, if_false, drop_succ_cons, drop_zero,
    strip_of_trimmed hkey, strip_of_trimmed hvalue]

/-- **Attributes between delimiters** are read one by one. -/
theorem splitOn_joinAttrs {attrs : List (Text × Text)} (hne : attrs ≠ [])
    (hsep : sep ≠ '=') (hfree : ∀ attr ∈ attrs, sep ∉ attr.1 ∧ sep ∉ attr.2) (htrim : Trim attrs) :
    ((joinAttrs sep attrs).splitOn sep).filterMap attrPair = attrs := by
  rw [joinAttrs, splitOn_intercalate sep ?_ (by simpa using hne), filterMap_map]
  · have hsome : ∀ attr ∈ attrs, (attrPair ∘ encodeAttr) attr = some attr := fun attr hattr =>
      attrPair_encodeAttr (htrim attr hattr).1 (htrim attr hattr).2.1 (htrim attr hattr).2.2
    rw [filterMap_congr hsome, filterMap_some]
  · intro token htoken
    obtain ⟨attr, hattr, rfl⟩ := mem_map.mp htoken
    simp [encodeAttr, hfree attr hattr, hsep]

variable {c : Char}

theorem mem_strip_subset (h : c ∈ strip text) : c ∈ text := by
  unfold strip at h
  have hdrop := dropWhile_subset _ (mem_reverse.mp h)
  exact dropWhile_subset _ (mem_reverse.mp hdrop)

theorem key_subset {token : Text} (h : attrPair token = some attr) (hc : c ∈ attr.1) :
    c ∈ token := by
  simp only [attrPair] at h
  split at h
  · cases h
  · cases h
    exact mem_strip_subset (takeWhile_subset _ (mem_strip_subset hc))

theorem notMem_splitKey {key : Text} {value : Text}
    (h : (Dict.ofList ((text.splitOn sep).filterMap attrPair)).get? key = some value) :
    sep ∉ key := by
  obtain ⟨token, htoken, hpair⟩ := mem_filterMap.mp (Dict.mem_of_get?_ofList h)
  intro hmem
  exact notMem_of_mem_splitOn htoken (key_subset hpair hmem)

section KeyValues

variable {word : WordClass} {sep : Char} {attrs : List (Text × Text)}

theorem joinAttrs_trimmed (hne : attrs ≠ []) (htrim : Trim attrs) :
    Trimmed (joinAttrs sep attrs) := by
  induction attrs with
  | nil => exact absurd rfl hne
  | cons attr rest ih =>
    obtain ⟨hkey, -, hvalue⟩ := htrim attr mem_cons_self
    have hattr := encodeAttr_trimmed hkey hvalue
    have hfilled : encodeAttr attr ≠ [] :=
      append_ne_nil_of_right_ne_nil _ (cons_ne_nil _ _)
    rw [joinAttrs_cons]
    constructor
    · intro c hc
      rw [head?_append_of_ne_nil _ hfilled] at hc
      exact hattr.1 c hc
    · intro c hc
      unfold afterFirst at hc
      split at hc
      · rw [append_nil] at hc
        exact hattr.2 c hc
      · rename_i hrest
        have hjoin : joinAttrs sep rest ≠ [] := by
          obtain ⟨next, later, rfl⟩ := exists_cons_of_ne_nil hrest
          rw [joinAttrs_cons]
          exact append_ne_nil_of_left_ne_nil
            (append_ne_nil_of_right_ne_nil _ (cons_ne_nil _ _)) _
        rw [getLast?_append_of_ne_nil _ (cons_ne_nil _ _)] at hc
        obtain ⟨x, xs, hx⟩ := exists_cons_of_ne_nil hjoin
        rw [hx, getLast?_cons_cons, ← hx] at hc
        exact (ih hrest fun a ha => htrim a (mem_cons_of_mem _ ha)).2 c hc

theorem joinAttrs_ne_nil (hne : attrs ≠ []) : joinAttrs sep attrs ≠ [] := by
  obtain ⟨attr, rest, rfl⟩ := exists_cons_of_ne_nil hne
  rw [joinAttrs_cons]
  exact append_ne_nil_of_left_ne_nil
    (append_ne_nil_of_right_ne_nil _ (cons_ne_nil _ _)) _

theorem parseKv_line {line : Text} (hne : line ≠ []) (htrimmed : Trimmed line)
    (hunbroken : ∀ c ∈ line, isBreak c = false) : parseKv word line = [parseKvLine word line] := by
  unfold parseKv
  rw [splitLines_unbroken hne hunbroken, map_singleton, strip_of_trimmed htrimmed]
  simp [hne]

theorem length_value_lt (hattr : attr ∈ attrs) : attr.2.length < (joinAttrs sep attrs).length := by
  induction attrs with
  | nil => cases hattr
  | cons a rest ih =>
    rw [joinAttrs_cons, length_append]
    rcases mem_cons.mp hattr with rfl | htail
    · simp only [encodeAttr, length_append, length_cons]
      omega
    · have := ih htail
      simp only [afterFirst, if_neg (ne_nil_of_mem htail), length_cons]
      omega

theorem mem_kvPairs_of_get? {line key value : Text} (hvalue : value.length < line.length)
    (h : (parseKvLine word line).get? key = some value) : (key, value) ∈ kvPairs word line := by
  have hshort : value ≠ line := by
    rintro rfl
    omega
  simp only [parseKvLine] at h
  split at h
  · have hmem := Dict.mem_of_get?_ofList h
    rw [mem_singleton] at hmem
    exact absurd (congrArg Prod.snd hmem) hshort
  · rw [Dict.get?_setDefault] at h
    split at h
    · rename_i hkey
      subst hkey
      cases hfound : (Dict.ofList (kvPairs word line)).get? "_raw".toList with
      | none =>
        rw [hfound] at h
        exact absurd (Option.some.inj h).symm hshort
      | some old =>
        rw [hfound] at h
        obtain rfl : old = value := Option.some.inj h
        exact Dict.mem_of_get?_ofList hfound
    · exact Dict.mem_of_get?_ofList h

theorem get?_parseKvLine (hne : attrs ≠ []) (hkeys : (attrs.map Prod.fst).Nodup)
    (hspace : isSpace sep = true) (hbreak : isBreak sep = false) (h : KvReadable word attrs)
    (hlines : ∀ attr ∈ attrs, '\n' ∉ attr.2) :
    (∀ attr ∈ attrs, (parseKvLine word (joinAttrs sep attrs)).get? attr.1 = some attr.2) ∧
      ∀ key ∈ (parseKvLine word (joinAttrs sep attrs)).keys,
        key ∈ attrs.map Prod.fst ∨ key = "_raw".toList := by
  have hpairs := kvPairs_of_readable hspace hbreak h hlines
  have hentries := Dict.entries_ofList hkeys
  have hfilled : (Dict.ofList attrs).keys ≠ [] := by
    rw [Dict.keys, hentries]
    simpa using hne
  simp only [parseKvLine, hpairs, if_neg hfilled]
  constructor
  · intro attr hattr
    have hget : (Dict.ofList attrs).get? attr.1 = some attr.2 := by
      rw [Dict.get?_eq_some_iff, hentries]
      exact hattr
    rw [Dict.get?_setDefault]
    split
    · rename_i hkey
      rw [← hkey, hget]
      rfl
    · exact hget
  · intro key hkey
    by_contra hnot
    rw [not_or] at hnot
    have hnone : ((Dict.ofList attrs).setDefault "_raw".toList (joinAttrs sep attrs)).get? key =
        none := by
      rw [Dict.get?_setDefault, if_neg hnot.2, Dict.get?_eq_none_iff, Dict.keys, hentries]
      exact hnot.1
    exact Dict.get?_eq_none_iff.mp hnone hkey

/-- **Attributes that `parse_kv` returns** are readable. -/
theorem readable_of_parseKvLine (hkeys : (attrs.map Prod.fst).Nodup)
    (hspace : isSpace sep = true) (hbreak : isBreak sep = false)
    (hlines : ∀ attr ∈ attrs, '\n' ∉ attr.2)
    (h : ∀ attr ∈ attrs, (parseKvLine word (joinAttrs sep attrs)).get? attr.1 = some attr.2) :
    KvReadable word attrs :=
  (kv_read_iff hspace hbreak hkeys hlines).mp fun attr hattr =>
    mem_kvPairs_of_get? (length_value_lt hattr) (h attr hattr)

end KeyValues

/-! ### The attributes of a line -/

section Attributes

variable {word : WordClass} {tables : CharTables} {e : LeefEvent}

theorem resolveDelim_singleton (d : Char) :
    resolveDelim tables [d] = if isSpace d then '\t' else d := by
  have hshort := tables.lower_short d
  by_cases hspace : isSpace d = true
  · have hstrip : strip [d] = [] := by simp [strip, hspace]
    simp [resolveDelim, hstrip, hspace]
  · have hstrip : strip [d] = [d] := by simp [strip, hspace]
    have hnot : tables.lower [d] ∉
        ["\\t".toList, "x09".toList, "0x09".toList, "\\u0009".toList] := by
      have hlong : ∀ text : Text, 2 < text.length → tables.lower [d] ≠ text := by
        rintro text hlength rfl
        omega
      simp only [mem_cons, not_mem_nil, or_false, not_or]
      exact ⟨tables.lower_plain d, hlong _ (by decide), hlong _ (by decide), hlong _ (by decide)⟩
    have hlength : ¬ ((tables.lower [d]).head? = some 'x' ∧ (tables.lower [d]).length = 3) := by
      omega
    simp only [resolveDelim, hstrip, hnot, hlength, hspace, if_false, Bool.false_eq_true]

def LeefEvent.attrText (e : LeefEvent) : Text := joinAttrs e.version.delimiter e.attributes

def LeefEvent.readAttributes (word : WordClass) (e : LeefEvent) : Dict Text Text :=
  splitLeefAttrs word e.attrText e.version.resolved

variable (hvalid : e.Valid)

include hvalid

theorem LeefEvent.Valid.trim : Trim e.attributes := fun attr hattr =>
  ⟨(hvalid.keys attr hattr).1, (hvalid.keys attr hattr).2, (hvalid.values attr hattr).1⟩

theorem LeefEvent.Valid.resolved_notMem : ∀ attr ∈ e.attributes, e.version.resolved ∉ attr.2 := by
  intro attr hattr
  obtain ⟨-, hdelimiter, htab, -⟩ := hvalid.values attr hattr
  unfold LeefVersion.resolved
  split
  · exact htab
  · exact hdelimiter

theorem LeefEvent.Valid.resolved_ne_eq : e.version.resolved ≠ '=' := by
  unfold LeefVersion.resolved
  split
  · decide
  · exact hvalid.delimiter.2.1

omit hvalid in
theorem get?_ofList_split_ne (h : sep ∈ attr.1) :
    (Dict.ofList ((text.splitOn sep).filterMap attrPair)).get? attr.1 ≠ some attr.2 :=
  fun hget => notMem_splitKey hget h

theorem resolved_mem_iff (hkeys : ∀ attr ∈ e.attributes, e.version.resolved ∉ attr.1) :
    e.version.resolved ∈ e.attrText ↔
      2 ≤ e.attributes.length ∧ e.version.resolved = e.version.delimiter := by
  constructor
  · intro hmem
    have hsep : e.version.resolved = e.version.delimiter := by
      rcases mem_joinAttrs hmem with hsep | heq | ⟨attr, hattr, hin | hin⟩
      · exact hsep
      · exact absurd heq hvalid.resolved_ne_eq
      · exact absurd hin (hkeys attr hattr)
      · exact absurd hin (hvalid.resolved_notMem attr hattr)
    refine ⟨?_, hsep⟩
    by_contra hfew
    obtain ⟨attr, rest, hattrs⟩ := exists_cons_of_ne_nil hvalid.some_attribute
    have hnone : rest = [] := by
      rw [hattrs, length_cons] at hfew
      exact length_eq_zero_iff.mp (by omega)
    have hin : attr ∈ e.attributes := by rw [hattrs]; exact mem_cons_self
    rw [LeefEvent.attrText, hattrs, hnone, joinAttrs_cons] at hmem
    simp only [afterFirst, if_true, append_nil, encodeAttr, mem_append,
      mem_cons] at hmem
    rcases hmem with hkey | heq | hvalue
    · exact hkeys attr hin hkey
    · exact hvalid.resolved_ne_eq heq
    · exact hvalid.resolved_notMem attr hin hvalue
  · rintro ⟨htwo, hsep⟩
    obtain ⟨attr, rest, hattrs⟩ := exists_cons_of_ne_nil hvalid.some_attribute
    have hsome : rest ≠ [] := by
      rintro rfl
      rw [hattrs] at htwo
      simp at htwo
    rw [LeefEvent.attrText, hattrs, joinAttrs_cons, hsep]
    simp [afterFirst, hsome]

theorem exists_space (h : ¬ (2 ≤ e.attributes.length ∧ e.version.resolved = e.version.delimiter)) :
    ∃ sep, isSpace sep = true ∧ isBreak sep = false ∧ e.attrText = joinAttrs sep e.attributes := by
  by_cases htwo : 2 ≤ e.attributes.length
  · refine ⟨e.version.delimiter, ?_, hvalid.delimiter.2.2, rfl⟩
    by_contra hspace
    exact h ⟨htwo, if_neg hspace⟩
  · obtain ⟨attr, rest, hattrs⟩ := exists_cons_of_ne_nil hvalid.some_attribute
    have hnone : rest = [] := by
      rw [hattrs, length_cons] at htwo
      exact length_eq_zero_iff.mp (by omega)
    refine ⟨'\t', by decide, by decide, ?_⟩
    simp [LeefEvent.attrText, hattrs, hnone, joinAttrs]

theorem tab_mem_attrText (hnot : e.version.resolved ∉ e.attrText)
    (htab : '\t' ∈ e.attrText) : ∃ attr ∈ e.attributes, '\t' ∈ attr.1 := by
  rcases mem_joinAttrs htab with hsep | heq | ⟨attr, hattr, hkey | hvalue⟩
  · have hresolved : e.version.resolved = '\t' := by
      unfold LeefVersion.resolved
      rw [← hsep]
      rfl
    exact absurd (hresolved ▸ htab) hnot
  · exact absurd heq (by decide)
  · exact ⟨attr, hattr, hkey⟩
  · exact absurd hvalue (hvalid.values attr hattr).2.2.1

theorem attrText_unbroken (hkeys : ∀ attr ∈ e.attributes, ∀ c ∈ attr.1, isBreak c = false) :
    ∀ c ∈ e.attrText, isBreak c = false := by
  intro c hc
  rcases mem_joinAttrs hc with rfl | rfl | ⟨attr, hattr, hkey | hvalue⟩
  · exact hvalid.delimiter.2.2
  · decide
  · exact hkeys attr hattr c hkey
  · exact (hvalid.values attr hattr).2.2.2 c hvalue

theorem value_no_newline : ∀ attr ∈ e.attributes, '\n' ∉ attr.2 := by
  intro attr hattr hmem
  have := (hvalid.values attr hattr).2.2.2 '\n' hmem
  exact absurd this (by decide)

theorem readAttributes_of_kv (hkeys : ∀ attr ∈ e.attributes, ∀ c ∈ attr.1, isBreak c = false)
    (hnot : e.version.resolved ∉ e.attrText) (htab : '\t' ∉ e.attrText) :
    e.readAttributes word = parseKvLine word e.attrText := by
  have hne : e.attrText ≠ [] := joinAttrs_ne_nil hvalid.some_attribute
  have hline := @parseKv_line word _ hne (joinAttrs_trimmed hvalid.some_attribute hvalid.trim)
    (attrText_unbroken hvalid hkeys)
  rw [LeefEvent.readAttributes, splitLeefAttrs, if_neg hne, if_neg hnot, if_neg htab, hline]
  rfl

/-- **Readable attributes** are read, and nothing else. -/
theorem readAttributes_of_readable (h : LeefReadable word e) :
    (∀ attr ∈ e.attributes, (e.readAttributes word).get? attr.1 = some attr.2) ∧
      ∀ key ∈ (e.readAttributes word).keys,
        key ∈ e.attributes.map Prod.fst ∨ key = "_raw".toList := by
  have hne : e.attrText ≠ [] := joinAttrs_ne_nil hvalid.some_attribute
  by_cases hsplit : 2 ≤ e.attributes.length ∧ e.version.resolved = e.version.delimiter
  · have hmem := (resolved_mem_iff hvalid h.unsplit).mpr hsplit
    have hread : e.readAttributes word = Dict.ofList e.attributes := by
      rw [LeefEvent.readAttributes, splitLeefAttrs, if_neg hne, if_pos hmem, hsplit.2,
        LeefEvent.attrText]
      have hfree : ∀ attr ∈ e.attributes,
          e.version.delimiter ∉ attr.1 ∧ e.version.delimiter ∉ attr.2 := fun attr hattr =>
        ⟨hsplit.2 ▸ h.unsplit attr hattr, (hvalid.values attr hattr).2.1⟩
      rw [splitOn_joinAttrs hvalid.some_attribute hvalid.delimiter.2.1 hfree hvalid.trim]
    have hentries := Dict.entries_ofList hvalid.distinct
    rw [hread]
    refine ⟨fun attr hattr => ?_, fun key hkey => ?_⟩
    · rw [Dict.get?_eq_some_iff, hentries]
      exact hattr
    · rw [Dict.keys, hentries] at hkey
      exact .inl hkey
  · have hkv := h.split_or_kv.resolve_left hsplit
    have hnot : e.version.resolved ∉ e.attrText := fun hmem =>
      hsplit ((resolved_mem_iff hvalid h.unsplit).mp hmem)
    have htab : '\t' ∉ e.attrText := by
      intro hmem
      obtain ⟨attr, hattr, hkey⟩ := tab_mem_attrText hvalid hnot hmem
      exact notMem_key (hkv.literal attr hattr).1 (isKvKeyChar_space (by decide)) hkey
    obtain ⟨sep, hspace, hbreak, htext⟩ := exists_space hvalid hsplit
    rw [readAttributes_of_kv hvalid h.oneLine.2 hnot htab, htext]
    exact get?_parseKvLine hvalid.some_attribute hvalid.distinct hspace hbreak hkv
      (value_no_newline hvalid)

theorem readable_of_readAttributes (hline : (∀ field ∈ e.header, ∀ c ∈ field, isBreak c = false) ∧
      ∀ attr ∈ e.attributes, ∀ c ∈ attr.1, isBreak c = false)
    (h : ∀ attr ∈ e.attributes, (e.readAttributes word).get? attr.1 = some attr.2) :
    LeefReadable word e := by
  have hne : e.attrText ≠ [] := joinAttrs_ne_nil hvalid.some_attribute
  have hunsplit : ∀ attr ∈ e.attributes, e.version.resolved ∉ attr.1 := by
    intro attr hattr hkey
    have hmem : e.version.resolved ∈ e.attrText :=
      mem_joinAttrs_of_pair hattr (by simp [encodeAttr, hkey])
    have hget := h attr hattr
    rw [LeefEvent.readAttributes, splitLeefAttrs, if_neg hne, if_pos hmem] at hget
    exact get?_ofList_split_ne hkey hget
  refine ⟨hline, hunsplit, ?_⟩
  by_cases hsplit : 2 ≤ e.attributes.length ∧ e.version.resolved = e.version.delimiter
  · exact .inl hsplit
  · right
    have hnot : e.version.resolved ∉ e.attrText := fun hmem =>
      hsplit ((resolved_mem_iff hvalid hunsplit).mp hmem)
    have htab : '\t' ∉ e.attrText := by
      intro hmem
      obtain ⟨attr, hattr, hkey⟩ := tab_mem_attrText hvalid hnot hmem
      have hget := h attr hattr
      rw [LeefEvent.readAttributes, splitLeefAttrs, if_neg hne, if_neg hnot, if_pos hmem] at hget
      exact get?_ofList_split_ne hkey hget
    obtain ⟨sep, hspace, hbreak, htext⟩ := exists_space hvalid hsplit
    rw [readAttributes_of_kv hvalid hline.2 hnot htab, htext] at h
    exact readable_of_parseKvLine hvalid.distinct hspace hbreak (value_no_newline hvalid) h

end Attributes

/-! ### The line of an event -/

section Lines

variable {word : WordClass} {tables : CharTables} {e : LeefEvent}

def LeefEvent.fields (e : LeefEvent) : List Text :=
  (leefMarker ++ e.version.text) :: e.header ++
    match e.version with
    | .one => []
    | .two d => [[d]]

theorem LeefEvent.encode_eq (e : LeefEvent) :
    e.encode = (e.fields.flatMap fun field => field ++ ['|']) ++ e.attrText := by
  unfold LeefEvent.encode LeefEvent.fields LeefEvent.attrText
  cases e.version <;> simp [LeefVersion.field]

theorem LeefEvent.Valid.fields_plain (hvalid : e.Valid) : ∀ field ∈ e.fields, '|' ∉ field := by
  have hdelimiter := hvalid.delimiter.1
  intro field hfield
  rcases mem_append.mp hfield with hfield | hfield
  · rcases mem_cons.mp hfield with rfl | hheader
    · cases e.version with
      | one => decide
      | two d =>
        change '|' ∉ leefMarker ++ ['2', '.', '0']
        decide
    · exact hvalid.fields field hheader
  · cases hversion : e.version with
    | one =>
      rw [hversion] at hfield
      cases hfield
    | two d =>
      rw [hversion] at hfield hdelimiter
      rw [mem_singleton.mp hfield, mem_singleton]
      exact hdelimiter.symm

def LeefEvent.readBack (word : WordClass) (e : LeefEvent) : LeefLine where
  header := Dict.ofList
    [("leef_version".toList, e.version.text), ("vendor".toList, e.vendor),
      ("product".toList, e.product), ("device_version".toList, e.deviceVersion),
      ("event_id".toList, e.eventId), ("_raw".toList, e.encode)]
  attributes := e.readAttributes word

/-- **The header is read back**, and the delimiter with it. -/
theorem readLeefLine_encode (hvalid : e.Valid) :
    readLeefLine word tables e.encode = .ok (e.readBack word) := by
  have hmarker : leefMarker.isPrefixOf e.encode = true := by
    unfold LeefEvent.encode
    rw [append_assoc, append_assoc, append_assoc]
    exact List.isPrefixOf_iff_prefix.mpr (prefix_append _ _)
  have hstrip : stripSyslogPrefix e.encode leefMarker = e.encode := by
    have hfind : findText leefMarker e.encode = some 0 := by
      obtain ⟨c, cs, hcons⟩ := exists_cons_of_ne_nil
        (show e.encode ≠ [] by simp [LeefEvent.encode])
      rw [hcons] at hmarker ⊢
      rw [findText, if_pos hmarker]
    rw [stripSyslogPrefix, hfind]
    rfl
  have hsplit : e.encode.splitOn '|' = e.fields ++ e.attrText.splitOn '|' := by
    rw [e.encode_eq, splitOn_fields hvalid.fields_plain]
  have hjoin : ['|'].intercalate (e.attrText.splitOn '|') = e.attrText := intercalate_splitOn '|'
  obtain ⟨piece, pieces, hpieces⟩ := exists_cons_of_ne_nil
    (splitOn_ne_nil '|' e.attrText)
  have hequals := hvalid.delimiter.2.1
  simp only [readLeefLine, hstrip, hmarker, Bool.not_true, Bool.false_eq_true, if_false, hsplit]
  unfold LeefEvent.fields LeefEvent.readBack LeefEvent.readAttributes LeefVersion.resolved
  cases hversion : e.version with
  | one =>
    rw [hpieces] at hjoin ⊢
    simp [LeefEvent.header, LeefVersion.text, LeefVersion.delimiter, leefMarker, leefDelimiter,
      hjoin, show isSpace '\t' = true by decide]
  | two d =>
    rw [hversion] at hequals
    have hplain : '=' ∉ [d] := by
      rw [mem_singleton]
      exact hequals.symm
    simp only [LeefEvent.header, LeefVersion.text, LeefVersion.delimiter, leefMarker,
      cons_append, nil_append, length_cons, length_nil, drop_succ_cons,
      drop_zero, leefDelimiter, head?_cons, hplain, not_false_eq_true, and_true,
      Nat.reduceAdd, Nat.reduceLeDiff, if_true, resolveDelim_singleton, hjoin]
    rfl

theorem LeefEvent.encode_trimmed (hvalid : e.Valid) : Trimmed e.encode := by
  have hne : e.attrText ≠ [] := joinAttrs_ne_nil hvalid.some_attribute
  constructor
  · intro c hc
    cases hc
    decide
  · intro c hc
    rw [e.encode_eq, getLast?_append_of_ne_nil _ hne] at hc
    exact (joinAttrs_trimmed hvalid.some_attribute hvalid.trim).2 c hc

theorem LeefEvent.encode_unbroken (hvalid : e.Valid)
    (hline : (∀ field ∈ e.header, ∀ c ∈ field, isBreak c = false) ∧
      ∀ attr ∈ e.attributes, ∀ c ∈ attr.1, isBreak c = false) :
    ∀ c ∈ e.encode, isBreak c = false := by
  have hdelimiter := hvalid.delimiter.2.2
  intro c hc
  rw [e.encode_eq, mem_append, mem_flatMap] at hc
  rcases hc with ⟨field, hfield, hc⟩ | hattrs
  · rcases mem_append.mp hc with hc | hbar
    · rcases mem_append.mp hfield with hfield | hfield
      · rcases mem_cons.mp hfield with rfl | hheader
        · have hprintable : ∀ c ∈ leefMarker ++ e.version.text, 32 ≤ c.toNat ∧ c.toNat < 128 := by
            cases e.version <;> simp [leefMarker, LeefVersion.text]
          exact isBreak_of_printable (hprintable c hc)
        · exact hline.1 field hheader c hc
      · cases hversion : e.version with
        | one =>
          rw [hversion] at hfield
          cases hfield
        | two d =>
          rw [hversion] at hfield hdelimiter
          rw [mem_singleton.mp hfield, mem_singleton] at hc
          rw [hc]
          exact hdelimiter
    · rw [mem_singleton.mp hbar]
      decide
  · exact attrText_unbroken hvalid hline.2 c hattrs

/-- **One line is one record.** -/
theorem parseLeef_encode (hvalid : e.Valid)
    (hline : (∀ field ∈ e.header, ∀ c ∈ field, isBreak c = false) ∧
      ∀ attr ∈ e.attributes, ∀ c ∈ attr.1, isBreak c = false) :
    parseLeef word tables (.text e.encode) = [(e.readBack word).record] := by
  have hne : e.encode ≠ [] := by simp [LeefEvent.encode]
  have hlines : nonblankLines e.encode = [e.encode] := by
    rw [nonblankLines, splitLines_unbroken hne (LeefEvent.encode_unbroken hvalid hline),
      map_singleton, strip_of_trimmed (LeefEvent.encode_trimmed hvalid)]
    simp [hne]
  have hrecord : parseLeefLine word tables e.encode = (e.readBack word).record := by
    rw [parseLeefLine, readLeefLine_encode hvalid]
  simp [parseLeef, Payload.toText, hlines, hrecord]

theorem oneLine_of_parseLeef {record : Record}
    (h : parseLeef word tables (.text e.encode) = [record]) :
    (∀ field ∈ e.header, ∀ c ∈ field, isBreak c = false) ∧
      ∀ attr ∈ e.attributes, ∀ c ∈ attr.1, isBreak c = false := by
  have hcut : ∀ pre brk post, e.encode = 'L' :: pre ++ brk :: post →
      (∃ c ∈ post, isSpace c = false) → isBreak brk = false := by
    rintro pre brk post htext ⟨c, hpost, hc⟩
    by_contra hbrk
    rw [Bool.not_eq_false] at hbrk
    obtain ⟨line, line', lines, hlines, hmem⟩ :=
      two_lines_of_break htext (by decide) hbrk hc hpost
    simp only [parseLeef, Payload.toText, hlines, map_cons, cons_ne_nil, if_false,
      List.cons.injEq, map_eq_nil_iff] at h
    rw [h.2] at hmem
    cases hmem
  constructor
  · intro field hfield c hc
    obtain ⟨a, b, rfl⟩ := append_of_mem hc
    obtain ⟨front, back, hheader⟩ := append_of_mem hfield
    refine hcut (['E', 'E', 'F', ':'] ++ e.version.text ++
      '|' :: (front.flatMap fun field => field ++ ['|']) ++ a) c
      (b ++ '|' :: (back.flatMap fun field => field ++ ['|']) ++ e.version.field ++
        joinAttrs e.version.delimiter e.attributes) ?_ ⟨'|', by simp, by decide⟩
    simp [LeefEvent.encode, hheader, leefMarker]
  · intro attr hattr c hc
    obtain ⟨a, b, hkey⟩ := append_of_mem hc
    obtain ⟨before, after, hjoin⟩ :=
      @encodeAttr_mem_text e.version.delimiter e.attributes attr hattr
    refine hcut (['E', 'E', 'F', ':'] ++ e.version.text ++
      '|' :: (e.header.flatMap fun field => field ++ ['|']) ++ e.version.field ++ before ++ a) c
      (b ++ '=' :: attr.2 ++ after) ?_ ⟨'=', by simp, by decide⟩
    simp [LeefEvent.encode, hjoin, encodeAttr, hkey, leefMarker]

/-- **LEEF decoding undoes LEEF encoding** exactly if the line is one, no key holds the delimiter,
and either the attributes are split at the delimiter or `parse_kv` can read them. -/
theorem leef_restored_iff (word : WordClass) (tables : CharTables) {e : LeefEvent}
    (hvalid : e.Valid) : LeefRestored word tables e ↔ LeefReadable word e := by
  constructor
  · rintro ⟨line, hread, hparse, hattrs, -⟩
    have hline := oneLine_of_parseLeef hparse
    rw [readLeefLine_encode hvalid] at hread
    cases hread
    exact readable_of_readAttributes hvalid hline fun attr hattr => (hattrs attr hattr).1
  · intro h
    obtain ⟨hattrs, honly⟩ := readAttributes_of_readable hvalid h
    refine ⟨e.readBack word, readLeefLine_encode hvalid, parseLeef_encode hvalid h.oneLine,
      fun attr hattr => ⟨hattrs attr hattr, ?_⟩, honly⟩
    have hentry : attr ∈ (e.readBack word).attributes.entries :=
      Dict.get?_eq_some_iff.mp (hattrs attr hattr)
    exact get?_foldl_addAliased_of_mem (e.readBack word).attributes.nodup hentry

def asciiTables : CharTables where
  lower text := text.map Char.toLower
  digit c :=
    if c.isDigit then some (c.toNat - 48)
    else if 'a' ≤ c ∧ c ≤ 'f' then some (c.toNat - 87) else none
  lower_short c := by simp
  lower_plain c := by simp

def leefSample (attrs : List (Text × Text)) : LeefEvent where
  version := .one
  vendor := ['V']
  product := ['P']
  deviceVersion := ['1']
  eventId := ['7']
  attributes := attrs

theorem leefSample_valid {attrs : List (Text × Text)} (hne : attrs ≠ [])
    (hkeys : (attrs.map Prod.fst).Nodup)
    (h : ∀ attr ∈ attrs, (Trimmed attr.1 ∧ '=' ∉ attr.1) ∧ Trimmed attr.2 ∧
      ∀ c ∈ attr.2, 32 ≤ c.toNat ∧ c.toNat < 128) : (leefSample attrs).Valid where
  fields := by simp [LeefEvent.header, leefSample]
  delimiter := by
    change '\t' ≠ '|' ∧ '\t' ≠ '=' ∧ isBreak '\t' = false
    decide
  some_attribute := hne
  distinct := hkeys
  keys := fun attr hattr => (h attr hattr).1
  values := by
    intro attr hattr
    obtain ⟨-, htrimmed, hprintable⟩ := h attr hattr
    have htab : '\t' ∉ attr.2 := fun hmem => absurd (hprintable '\t' hmem) (by decide)
    exact ⟨htrimmed, htab, htab, fun c hc => isBreak_of_printable (hprintable c hc)⟩

/-- A value with a blank between two tabs is returned. -/
theorem leef_restored_of_two :
    LeefRestored asciiWord asciiTables
      (leefSample [(['m', 's', 'g'], ['a', ' ', 'b']), (['s', 'r', 'c'], ['1', '0'])]) := by
  have htrimmed : ∀ a b c : Char, isSpace a = false → isSpace c = false → Trimmed [a, b, c] := by
    intro a b c ha hc
    exact ⟨by rintro x ⟨⟩; exact ha, by rintro x ⟨⟩; exact hc⟩
  refine (leef_restored_iff asciiWord asciiTables (leefSample_valid (by simp) (by simp) ?_)).mpr ?_
  · intro attr hattr
    simp only [mem_cons, not_mem_nil, or_false] at hattr
    rcases hattr with rfl | rfl
    · exact ⟨⟨htrimmed _ _ _ (by decide) (by decide), by decide⟩,
        htrimmed _ _ _ (by decide) (by decide), by simp⟩
    · exact ⟨⟨htrimmed _ _ _ (by decide) (by decide), by decide⟩,
        ⟨by rintro c ⟨⟩; rfl, by rintro c ⟨⟩; rfl⟩, by simp⟩
  · refine ⟨⟨?_, ?_⟩, ?_, .inl ⟨by decide, by decide⟩⟩
    · have hheader : ∀ field ∈ (leefSample []).header, ∀ c ∈ field,
          32 ≤ c.toNat ∧ c.toNat < 128 := by simp [LeefEvent.header, leefSample]
      exact fun field hfield c hc => isBreak_of_printable (hheader field hfield c hc)
    · simp [leefSample, isBreak]
    · have htab : LeefVersion.one.resolved = '\t' := rfl
      simp [leefSample, htab]

/-- **The same value as the only attribute** is cut off at the blank. -/
theorem single_attribute_cut :
    (leefSample [(['m', 's', 'g'], ['a', ' ', 'b'])]).Valid ∧
      ((leefSample [(['m', 's', 'g'], ['a', ' ', 'b'])]).readAttributes asciiWord).get?
        ['m', 's', 'g'] = some ['a'] ∧
      ¬ LeefRestored asciiWord asciiTables (leefSample [(['m', 's', 'g'], ['a', ' ', 'b'])]) := by
  have hvalid : (leefSample [(['m', 's', 'g'], ['a', ' ', 'b'])]).Valid := by
    apply leefSample_valid (by simp) (by simp)
    intro attr hattr
    rw [mem_singleton] at hattr
    rw [hattr]
    exact ⟨⟨⟨by rintro c ⟨⟩; rfl, by rintro c ⟨⟩; rfl⟩, by decide⟩,
      ⟨by rintro c ⟨⟩; rfl, by rintro c ⟨⟩; rfl⟩, by simp⟩
  have hcut : ((leefSample [(['m', 's', 'g'], ['a', ' ', 'b'])]).readAttributes asciiWord).get?
      ['m', 's', 'g'] = some ['a'] := by decide
  refine ⟨hvalid, hcut, ?_⟩
  rintro ⟨line, hread, -, hattrs, -⟩
  rw [readLeefLine_encode hvalid] at hread
  cases hread
  have hget := (hattrs _ mem_cons_self).1
  rw [LeefEvent.readBack, hcut] at hget
  exact absurd hget (by decide)

end Lines

end AgenticKibana.Receivers
