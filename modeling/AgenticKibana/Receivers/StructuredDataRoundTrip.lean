import AgenticKibana.Receivers.CefRoundTrip
import AgenticKibana.Receivers.StructuredDataScan

/-!
# Structured data, written and read

The elements and the message come back exactly where the names are words that differ within
their element, every element is closed (the last one may be open where no message follows),
and the message does not begin with white space.
-/

namespace AgenticKibana.Receivers

open AgenticKibana.Library List
open AgenticKibana.Library.TextLines

section Params

variable {word : WordClass}

/-! ### The loop -/

theorem sdLoop_cons (fuel : Nat) (structured : Dict Text SdParams) (rest : Text) :
    sdLoop word (fuel + 1) structured ('[' :: rest) =
      sdLoop word fuel
        (if (parseSdElement word (takeElement 0 ('[' :: rest)).1).1 ≠ [] then
          structured.set (parseSdElement word (takeElement 0 ('[' :: rest)).1).1
            (parseSdElement word (takeElement 0 ('[' :: rest)).1).2
        else structured)
        (skipBlank (takeElement 0 ('[' :: rest)).2) := rfl

variable {rest : Text}

theorem sdLoop_stop (fuel : Nat) (structured : Dict Text SdParams) (h : rest.head? ≠ some '[') :
    sdLoop word fuel structured rest = (structured, rest) := by
  cases fuel with
  | zero => rfl
  | succ fuel =>
    cases rest with
    | nil => rfl
    | cons c rest =>
      have hc : c ≠ '[' := fun heq => h (congrArg some heq)
      rw [sdLoop]
      intro fuel' tail _ heq
      exact hc (cons_eq_cons.mp heq).1

variable {e : SdElement}

theorem sdLoop_element (he : e.Worded word) (hclosed : e.Closed) (fuel : Nat)
    (structured : Dict Text SdParams) (rest : Text) :
    sdLoop word (fuel + 1) structured (e.encode ++ rest) =
      sdLoop word fuel (structured.set e.read.1 e.read.2) (skipBlank rest) := by
  have hcons : e.encode ++ rest = '[' :: (e.id.text ++ e.encodeParams ++ [']'] ++ rest) := by
    simp [SdElement.encode]
  have hparse : parseSdElement word e.encode = e.read := by
    rw [← append_nil e.encode]
    exact parseSdElement_encode he (.inl rfl)
  have hid : e.read.1 ≠ [] := e.id.nonempty
  rw [hcons, sdLoop_cons, ← hcons, takeElement_closed he hclosed, hparse, if_pos hid]

def readAll (elements : List SdElement) (structured : Dict Text SdParams) : Dict Text SdParams :=
  elements.foldl (fun d e => d.set e.read.1 e.read.2) structured

theorem encode_head (e : SdElement) (rest : Text) : (e.encode ++ rest).head? = some '[' := rfl

theorem skipBlank_of_head (h : rest.head? ≠ some ' ') : skipBlank rest = rest := by
  cases rest with
  | nil => rfl
  | cons c rest =>
    have hc : c ≠ ' ' := fun heq => h (congrArg some heq)
    rw [skipBlank]
    exact fun _ heq => hc (cons_eq_cons.mp heq).1

/-- **Closed elements are read one after the other.** -/
theorem sdLoop_elements {elements : List SdElement} (hworded : ∀ e ∈ elements, e.Worded word)
    (hclosed : ∀ e ∈ elements, e.Closed) (fuel : Nat) (structured : Dict Text SdParams)
    (rest : Text) :
    sdLoop word (fuel + elements.length) structured
        (elements.flatMap SdElement.encode ++ rest) =
      sdLoop word fuel (readAll elements structured)
        (if elements = [] then rest else skipBlank rest) := by
  induction elements generalizing structured with
  | nil => rfl
  | cons e elements ih =>
    have hhead := sdLoop_element (hworded e mem_cons_self) (hclosed e mem_cons_self)
      (fuel + elements.length) structured (elements.flatMap SdElement.encode ++ rest)
    have htail := ih (fun x hx => hworded x (mem_cons_of_mem _ hx))
      (fun x hx => hclosed x (mem_cons_of_mem _ hx)) (structured.set e.read.1 e.read.2)
    rw [flatMap_cons, append_assoc, length_cons, ← Nat.add_assoc, hhead,
      if_neg (cons_ne_nil _ _)]
    cases elements with
    | nil => rfl
    | cons next elements =>
      rw [if_neg (cons_ne_nil _ _)] at htail
      have hnext : (next :: elements).flatMap SdElement.encode ++ rest =
          next.encode ++ (elements.flatMap SdElement.encode ++ rest) := by
        rw [flatMap_cons, append_assoc]
      rw [skipBlank_of_head (by rw [hnext, encode_head]; decide), htail]
      rfl

theorem length_elements_le (elements : List SdElement) :
    elements.length ≤ (elements.flatMap SdElement.encode).length := by
  induction elements with
  | nil => exact Nat.le_refl 0
  | cons e elements ih =>
    have hpos : 0 < e.encode.length := length_pos_of_ne_nil (cons_ne_nil _ _)
    rw [flatMap_cons, length_append, length_cons]
    omega

theorem split_encodeSd {elements : List SdElement} (hne : elements ≠ []) (message : Text) :
    splitStructuredData word (encodeSd elements message) =
      let text := elements.flatMap SdElement.encode ++ ' ' :: message
      let m := sdLoop word text.length Dict.empty text
      (m.1, lstrip m.2) := by
  obtain ⟨e, rest, rfl⟩ := exists_cons_of_ne_nil hne
  have htext : encodeSd (e :: rest) message =
      (e :: rest).flatMap SdElement.encode ++ ' ' :: message := by
    rw [encodeSd, if_neg (cons_ne_nil _ _)]
  have hcons : (e :: rest).flatMap SdElement.encode ++ ' ' :: message =
      '[' :: (e.id.text ++ e.encodeParams ++ [']'] ++
        (rest.flatMap SdElement.encode ++ ' ' :: message)) := by
    simp [SdElement.encode]
  have hlstrip : ∀ t : Text, lstrip ('[' :: t) = '[' :: t := fun t => rfl
  rw [htext, hcons, splitStructuredData, hlstrip]
  rfl

/-! ### What is true of every text -/

theorem length_skipBlank_le (rest : Text) : (skipBlank rest).length ≤ rest.length := by
  unfold skipBlank
  split
  · simp
  · exact Nat.le_refl _

theorem length_lstrip_le (text : Text) : (lstrip text).length ≤ text.length :=
  (dropWhile_sublist _).length_le

theorem length_sdLoop_le (fuel : Nat) (structured : Dict Text SdParams) (rest : Text) :
    (sdLoop word fuel structured rest).2.length ≤ rest.length := by
  induction fuel generalizing structured rest with
  | zero => exact Nat.le_refl _
  | succ fuel ih =>
    by_cases hhead : rest.head? = some '['
    · obtain ⟨tail, rfl⟩ : ∃ tail, rest = '[' :: tail := by
        cases rest with
        | nil => cases hhead
        | cons c tail => exact ⟨tail, by rw [Option.some.inj hhead]⟩
      rw [sdLoop_cons]
      refine (ih _ _).trans ((length_skipBlank_le _).trans ?_)
      have hsplit := congrArg List.length (takeFrom_split (0, false) ('[' :: tail))
      rw [length_append] at hsplit
      rw [takeElement_eq]
      omega
    · rw [sdLoop_stop _ _ hhead]

def WordNames (word : WordClass) (structured : Dict Text SdParams) : Prop :=
  ∀ id params, (id, params) ∈ structured.entries → ∀ name value, (name, value) ∈ params.entries →
    ∀ c ∈ name, word.holds c = true

theorem wordNames_sdLoop (fuel : Nat) {structured : Dict Text SdParams}
    (h : WordNames word structured) (rest : Text) :
    WordNames word (sdLoop word fuel structured rest).1 := by
  induction fuel generalizing structured rest with
  | zero => exact h
  | succ fuel ih =>
    by_cases hhead : rest.head? = some '['
    · obtain ⟨tail, rfl⟩ : ∃ tail, rest = '[' :: tail := by
        cases rest with
        | nil => cases hhead
        | cons c tail => exact ⟨tail, by rw [Option.some.inj hhead]⟩
      rw [sdLoop_cons]
      refine ih ?_ _
      split
      · intro id params hmem name value hvalue
        rw [← Dict.get?_eq_some_iff, Dict.get?_set] at hmem
        split at hmem
        · cases hmem
          exact word_of_parseSdElement hvalue
        · exact h id params (Dict.get?_eq_some_iff.mp hmem) name value hvalue
      · exact h
    · rw [sdLoop_stop _ _ hhead]
      exact h

theorem head_lstrip (text : Text) : ∀ c, (lstrip text).head? = some c → isSpace c = false := by
  intro c hc
  have hhead := head?_dropWhile_not isSpace text
  rw [show text.dropWhile isSpace = lstrip text from rfl, hc] at hhead
  exact hhead

theorem length_set_le (structured : Dict Text SdParams) (id : Text) (params : SdParams) :
    (structured.set id params).entries.length ≤ structured.entries.length + 1 := by
  have hkeys := congrArg List.length (Dict.keys_assign id params structured.entries)
  rw [length_map] at hkeys
  have hset : (structured.set id params).entries = Dict.assign id params structured.entries := rfl
  rw [hset, hkeys]
  split
  · rw [length_map]
    omega
  · rw [length_append, length_map, length_singleton]

theorem length_readAll_le (elements : List SdElement) (structured : Dict Text SdParams) :
    (readAll elements structured).entries.length ≤
      structured.entries.length + elements.length := by
  induction elements generalizing structured with
  | nil => exact Nat.le_refl _
  | cons e elements ih =>
    have hset := length_set_le structured e.read.1 e.read.2
    have hrest := ih (structured.set e.read.1 e.read.2)
    rw [length_cons]
    exact hrest.trans (by omega)

theorem entries_readAll {elements : List SdElement}
    (hids : (elements.map fun e => e.id.text).Nodup) :
    (readAll elements Dict.empty).entries = elements.map SdElement.read := by
  have hfold : readAll elements Dict.empty = Dict.ofList (elements.map SdElement.read) := by
    unfold readAll Dict.ofList
    rw [foldl_map]
  rw [hfold]
  apply Dict.entries_ofList
  rw [map_map]
  exact hids

/-- The loop on some closed elements and one that is not: it takes what is left of the elements,
and something of the message. -/
theorem sdLoop_unclosed {pre post : List SdElement}
    (hworded : ∀ x ∈ pre ++ e :: post, x.Worded word) (hclosed : ∀ x ∈ pre, x.Closed)
    (hunclosed : ¬ e.Closed) (message : Text) (fuel : Nat) :
    ∃ (s : Nat × Bool) (structured : Dict Text SdParams), 1 ≤ s.1 ∧ s.2 = false ∧
      structured.entries.length ≤ pre.length + 1 ∧
      (structured = if (parseSdElement word (e.encode ++ post.flatMap SdElement.encode ++
          (takeFrom s (' ' :: message)).1)).1 ≠ [] then
        (readAll pre Dict.empty).set
          (parseSdElement word (e.encode ++ post.flatMap SdElement.encode ++
            (takeFrom s (' ' :: message)).1)).1
          (parseSdElement word (e.encode ++ post.flatMap SdElement.encode ++
            (takeFrom s (' ' :: message)).1)).2
        else readAll pre Dict.empty) ∧
      sdLoop word (fuel + 1 + pre.length) Dict.empty
          ((pre ++ e :: post).flatMap SdElement.encode ++ ' ' :: message) =
        sdLoop word fuel structured (skipBlank (takeFrom s (' ' :: message)).2) := by
  have hpre : ∀ x ∈ pre, x.Worded word := fun x hx => hworded x (mem_append_left _ hx)
  have he : e.Worded word := hworded e (mem_append_right _ mem_cons_self)
  have hpost : ∀ x ∈ post, x.Worded word := fun x hx =>
    hworded x (mem_append_right _ (mem_cons_of_mem _ hx))
  obtain ⟨s, htake, hdepth, hplain⟩ := takeElement_unclosed he hpost hunclosed (' ' :: message)
  refine ⟨s, _, hdepth, hplain, ?_, rfl, ?_⟩
  · have hsize := length_readAll_le pre Dict.empty
    rw [show (Dict.empty : Dict Text SdParams).entries.length = 0 from rfl, Nat.zero_add] at hsize
    split
    · exact (length_set_le _ _ _).trans (by omega)
    · omega
  · have htext : (pre ++ e :: post).flatMap SdElement.encode ++ ' ' :: message =
        pre.flatMap SdElement.encode ++
          (e.encode ++ post.flatMap SdElement.encode ++ ' ' :: message) := by
      simp
    have hskip : (if pre = [] then e.encode ++ post.flatMap SdElement.encode ++ ' ' :: message
        else skipBlank (e.encode ++ post.flatMap SdElement.encode ++ ' ' :: message)) =
          e.encode ++ post.flatMap SdElement.encode ++ ' ' :: message := by
      split
      · rfl
      · rfl
    have hcons : e.encode ++ post.flatMap SdElement.encode ++ ' ' :: message =
        '[' :: (e.id.text ++ e.encodeParams ++ [']'] ++ post.flatMap SdElement.encode ++
          ' ' :: message) := by
      simp [SdElement.encode]
    rw [htext, sdLoop_elements hpre hclosed, hskip, hcons, sdLoop_cons, ← hcons, htake]

/-! ### Both directions -/

/-- What the parser can read: names that are words and differ within their element; elements
that are closed, the last one only if a message follows; and a message that does not begin
with white space. -/
structure SdReadable (word : WordClass) (elements : List SdElement) (message : Text) : Prop where
  worded : ∀ e ∈ elements, e.Worded word
  named : ∀ e ∈ elements, (e.params.map fun p => p.1.text).Nodup
  inner : ∀ e ∈ elements.dropLast, e.Closed
  last : message ≠ [] → ∀ e ∈ elements, e.Closed
  starts : ∀ c, message.head? = some c → isSpace c = false

variable {elements : List SdElement} {message : Text}

theorem takeFrom_blank (s : Nat × Bool) (h : s.2 = false) (message : Text) :
    takeFrom s (' ' :: message) =
      (' ' :: (takeFrom s message).1, (takeFrom s message).2) := by
  obtain ⟨depth, hidden⟩ := s
  cases h
  rfl

theorem exists_fuel (elements : List SdElement) (message : Text) :
    ∃ fuel, (elements.flatMap SdElement.encode ++ ' ' :: message).length =
      fuel + 1 + elements.length := by
  have hlength := length_elements_le elements
  refine ⟨(elements.flatMap SdElement.encode).length - elements.length + message.length, ?_⟩
  rw [length_append, length_cons]
  omega

theorem sdLoop_readable (h : SdReadable word elements message)
    (hmessage : message.head? ≠ some '[') (hne : elements ≠ []) :
    let text := elements.flatMap SdElement.encode ++ ' ' :: message
    sdLoop word text.length Dict.empty text = (readAll elements Dict.empty, message) := by
  intro text
  by_cases hclosed : ∀ e ∈ elements, e.Closed
  · obtain ⟨fuel, hfuel⟩ := exists_fuel elements message
    rw [hfuel, sdLoop_elements h.worded hclosed, if_neg hne]
    exact sdLoop_stop _ _ hmessage
  · -- the last element is open, and no message follows
    have hnil : message = [] := by
      by_contra hmessage
      exact hclosed (h.last hmessage)
    subst hnil
    obtain ⟨init, last, rfl⟩ : ∃ init last, elements = init ++ [last] :=
      (eq_nil_or_concat' elements).resolve_left hne
    have hinner : ∀ e ∈ init, e.Closed := by
      have hdrop := h.inner
      rw [dropLast_concat] at hdrop
      exact hdrop
    have hlast : ¬ last.Closed := by
      intro hlast
      refine hclosed fun e he => ?_
      rcases mem_append.mp he with he | he
      · exact hinner e he
      · rw [mem_singleton.mp he]
        exact hlast
    obtain ⟨fuel, hfuel⟩ := exists_fuel (init ++ [last]) []
    obtain ⟨s, structured, -, hplain, -, hread, hloop⟩ :=
      sdLoop_unclosed h.worded hinner hlast [] (fuel + 1)
    have htake : takeFrom s [' '] = ([' '], []) := takeFrom_blank s hplain []
    have hparse : parseSdElement word (last.encode ++ [].flatMap SdElement.encode ++ [' ']) =
        last.read := by
      rw [flatMap_nil, append_nil]
      exact parseSdElement_encode (h.worded last (by simp)) (.inr rfl)
    have hid : last.read.1 ≠ [] := last.id.nonempty
    rw [htake, hparse, if_pos hid] at hread
    rw [htake] at hloop
    have hlength : fuel + 1 + (init ++ [last]).length = fuel + 1 + 1 + init.length := by
      simp
      omega
    have hall : (readAll init Dict.empty).set last.read.1 last.read.2 =
        readAll (init ++ [last]) Dict.empty := by
      simp [readAll]
    rw [hfuel, hlength, hloop, hread, hall]
    exact sdLoop_stop _ _ (by simp [skipBlank])

theorem exists_unclosed (h : ¬ ∀ e ∈ elements, e.Closed) :
    ∃ pre e post, elements = pre ++ e :: post ∧ (∀ x ∈ pre, x.Closed) ∧ ¬ e.Closed := by
  induction elements with
  | nil => exact absurd (by simp) h
  | cons x rest ih =>
    by_cases hx : x.Closed
    · have hrest : ¬ ∀ e ∈ rest, e.Closed := by
        intro hall
        refine h fun e he => ?_
        rcases mem_cons.mp he with rfl | he
        · exact hx
        · exact hall e he
      obtain ⟨pre, e, post, rfl, hpre, he⟩ := ih hrest
      refine ⟨x :: pre, e, post, rfl, ?_, he⟩
      intro y hy
      rcases mem_cons.mp hy with rfl | hy
      · exact hx
      · exact hpre y hy
    · exact ⟨[], x, rest, rfl, by simp, hx⟩

/-- If all elements and the message are there, only the last element is not closed, and no
message follows it. -/
theorem readable_of_complete (hworded : ∀ e ∈ elements, e.Worded word)
    (hunclosed : ¬ ∀ e ∈ elements, e.Closed) {fuel : Nat} {m : Dict Text SdParams × Text}
    (hfuel : (elements.flatMap SdElement.encode ++ ' ' :: message).length = fuel)
    (hloop : sdLoop word fuel Dict.empty (elements.flatMap SdElement.encode ++ ' ' :: message) = m)
    (hcount : m.1.entries.length = elements.length) (hleft : lstrip m.2 = message) :
    message = [] ∧ ∀ e ∈ elements.dropLast, e.Closed := by
  obtain ⟨pre, e, post, rfl, hpre, he⟩ := exists_unclosed hunclosed
  obtain ⟨fuel', hfuel'⟩ := exists_fuel (pre ++ e :: post) message
  have hlength : fuel = fuel' + 1 + post.length + 1 + pre.length := by
    rw [← hfuel, hfuel']
    simp only [length_append, length_cons]
    omega
  obtain ⟨s, structured, -, hplain, hsize, -, hrun⟩ :=
    sdLoop_unclosed hworded hpre he message (fuel' + 1 + post.length)
  rw [hlength, hrun, takeFrom_blank s hplain] at hloop
  dsimp only at hloop
  have hnil : message = [] := by
    by_contra hmessage
    -- part of the message is gone
    have htaken := length_takeFrom_lt s hmessage
    have hloopLength : m.2.length ≤ (skipBlank (takeFrom s message).2).length :=
      hloop ▸ length_sdLoop_le _ _ _
    have hskip := length_skipBlank_le (takeFrom s message).2
    have hstrip := length_lstrip_le m.2
    rw [hleft] at hstrip
    omega
  subst hnil
  have hstop : sdLoop word (fuel' + 1 + post.length) structured (skipBlank (takeFrom s []).2) =
      (structured, []) := sdLoop_stop _ _ (by simp [takeFrom, skipBlank])
  rw [hstop] at hloop
  subst hloop
  simp only [length_append, length_cons] at hcount
  have hpost : post = [] := length_eq_zero_iff.mp (by omega)
  subst hpost
  refine ⟨rfl, ?_⟩
  rw [dropLast_concat]
  exact hpre

theorem readable_of_parsed (hne : elements ≠ []) (h : SdParsed word elements message) :
    SdReadable word elements message := by
  rw [SdParsed, split_encodeSd hne message] at h
  dsimp only at h
  generalize hfuel : (elements.flatMap SdElement.encode ++ ' ' :: message).length = fuel at h
  generalize hloop : sdLoop word fuel Dict.empty
    (elements.flatMap SdElement.encode ++ ' ' :: message) = m at h
  obtain ⟨hentries, hleft⟩ := h
  have hnames : WordNames word m.1 :=
    hloop ▸ wordNames_sdLoop _ (fun _ _ hmem => absurd hmem (by simp [Dict.empty])) _
  have hread : ∀ e ∈ elements, ∃ params : SdParams,
      params.entries = e.params.map (fun p => (p.1.text, p.2)) ∧
        ∀ name value, (name, value) ∈ params.entries → ∀ c ∈ name, word.holds c = true := by
    intro e he
    have hmem : (e.id.text, e.params.map fun p => (p.1.text, p.2)) ∈
        m.1.entries.map (fun e => (e.1, e.2.entries)) := by
      rw [hentries]
      exact mem_map.mpr ⟨e, he, rfl⟩
    obtain ⟨⟨id, params⟩, hmem, heq⟩ := mem_map.mp hmem
    exact ⟨params, (Prod.mk.inj heq).2, hnames id params hmem⟩
  have hworded : ∀ e ∈ elements, e.Worded word := by
    intro e he p hp
    obtain ⟨params, hparams, hword⟩ := hread e he
    refine hword p.1.text p.2 ?_
    rw [hparams]
    exact mem_map.mpr ⟨p, hp, rfl⟩
  have hcount : m.1.entries.length = elements.length := by
    simpa using congrArg List.length hentries
  refine ⟨hworded, ?_, ?_, ?_, hleft ▸ head_lstrip _⟩
  · intro e he
    obtain ⟨params, hparams, -⟩ := hread e he
    have hnodup := params.nodup
    rw [hparams, map_map] at hnodup
    exact hnodup
  · by_cases hclosed : ∀ e ∈ elements, e.Closed
    · exact fun e he => hclosed e (mem_of_mem_dropLast he)
    · exact (readable_of_complete hworded hclosed hfuel hloop hcount hleft).2
  · intro hsome
    by_contra hclosed
    exact hsome (readable_of_complete hworded hclosed hfuel hloop hcount hleft).1

/-- **When structured data is parsed to its grammar**: exactly where the parser can read it. -/
theorem sd_parsed_iff (hids : (elements.map fun e => e.id.text).Nodup)
    (hmessage : message.head? ≠ some '[') :
    SdParsed word elements message ↔ SdReadable word elements message := by
  by_cases hne : elements = []
  · -- no elements: a dash, and the message behind its white space
    subst hne
    have hsplit : splitStructuredData word (encodeSd [] message) = (Dict.empty, lstrip message) :=
      rfl
    rw [SdParsed, hsplit]
    constructor
    · intro h
      exact ⟨by simp, by simp, by simp, by simp, h.2 ▸ head_lstrip message⟩
    · intro h
      exact ⟨rfl, dropWhile_of_head h.starts⟩
  · refine ⟨readable_of_parsed hne, fun h => ?_⟩
    rw [SdParsed, split_encodeSd hne message]
    dsimp only
    rw [sdLoop_readable h hmessage hne]
    refine ⟨?_, dropWhile_of_head h.starts⟩
    rw [entries_readAll hids, map_map]
    refine map_congr_left fun e he => ?_
    have hparams : (Dict.ofList (e.params.map fun p => (p.1.text, p.2))).entries =
        e.params.map fun p => (p.1.text, p.2) := by
      apply Dict.entries_ofList
      rw [map_map]
      exact h.named e he
    exact Prod.ext rfl hparams

end Params

/-- `ids`. -/
def idsName : SdName where
  text := ['i', 'd', 's']
  nonempty := by decide
  short := by decide
  allowed := by simp

/-- `ip`. -/
def ipName : SdName where
  text := ['i', 'p']
  nonempty := by decide
  short := by decide
  allowed := by simp

/-- `src-ip`. -/
def dashedName : SdName where
  text := ['s', 'r', 'c', '-', 'i', 'p']
  nonempty := by decide
  short := by decide
  allowed := by simp

def elementOf (name : SdName) (value : Text) : SdElement := ⟨idsName, [(name, value)]⟩

/-- A value of escaped characters. -/
theorem sd_parsed_of_escapes :
    SdParsed asciiWord [elementOf ipName ['\\', '"', ']', '\\']] ['o', 'k'] := by
  refine (sd_parsed_iff (by decide) (by decide)).mpr ?_
  have hclosed : (elementOf ipName ['\\', '"', ']', '\\']).Closed :=
    ⟨rfl, nofun, by simp [elementOf]⟩
  refine ⟨?_, by decide, by simp, fun _ => by simpa using hclosed, by simp [isSpace]⟩
  simp only [mem_singleton, forall_eq]
  intro param hparam c hc
  rw [mem_singleton.mp hparam] at hc
  simp only [ipName, mem_cons, not_mem_nil, or_false] at hc
  rcases hc with rfl | rfl <;> rfl

/-- The name `src-ip` loses its first part, and a bracket in a value takes the message with it
and spoils the element. -/
theorem sd_not_parsed :
    splitStructuredData asciiWord (encodeSd [elementOf dashedName ['1']] ['o', 'k']) =
        (Dict.ofList [(['i', 'd', 's'], Dict.ofList [(['i', 'p'], ['1'])])], ['o', 'k']) ∧
      ¬ SdParsed asciiWord [elementOf dashedName ['1']] ['o', 'k'] ∧
    (splitStructuredData asciiWord (encodeSd [elementOf ipName ['[']] ['o', 'k'])).2 = [] ∧
      ¬ SdParsed asciiWord [elementOf ipName ['[']] ['o', 'k'] := by
  refine ⟨?_, ?_, ?_, ?_⟩
  · decide
  · unfold SdParsed
    decide
  · decide
  · unfold SdParsed
    decide

end AgenticKibana.Receivers
