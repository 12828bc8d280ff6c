import AgenticKibana.Library.Json
import AgenticKibana.Library.Machine
import AgenticKibana.Taint.Indicators

/-!
# The taint ledger of a turn

`TaintLedger` collects what the user typed and what code-provenance artifacts show, answers
`check`, and counts the lookups of the turn.  Its calls follow one another; lookups overlap by
reserving before they run and committing or releasing when they end.  The user texts are read up
to a common limit of characters, and cut there.
-/

namespace AgenticKibana.Taint

open Library (Json Machine)
open Library.TextLines (strip)
open Library.Tokens List

/-! ### Evidence -/

structure Artifact where
  provenance : Option String
  kind : Option String
  data : Json

def evidenceColumnKeys : List Text :=
  ["entity".toList, "indicator".toList, "ip".toList, "source_ip".toList, "src_ip".toList,
    "dest_ip".toList, "destination_ip".toList, "domain".toList, "hash".toList,
    "file_hash".toList, "sha256".toList, "sha1".toList, "md5".toList, "url".toList, "host".toList]

/-- `data.get(key)`; a missing key is a null. -/
def field (ms : List (String × Json)) (key : String) : Json := (ms.lookup key).getD .null

section Evidence
variable (py : Runtime)

def evidenceColumn : Json → Bool
  | .obj col =>
    decide (field col "type" = .str "entity") ||
      evidenceColumnKeys.contains (py.lower ((col.lookup "key").getD (.str "")).pyStr.toList)
  | _ => false

def rowCells (wanted : List Nat) : Json → List Json
  | .arr cells => wanted.filterMap fun i => cells[i]?
  | _ => []

/-- The values of an artifact that `observe` offers as evidence, in order; an
error where it raises. -/
def evidenceCells (a : Artifact) : Except Json.ConversionError (List Json) :=
  if a.provenance ≠ some "code" then .ok []
  else
    match a.data.orElse (.obj []) with
    | .obj data =>
      if a.kind = some "entity" then
        match field data "entity" with
        | .obj entity => .ok [field entity "value"]
        | _ => .ok []
      else if a.kind = some "table" then
        ((field data "columns").orElse (.arr [])).pyList.bind fun columns =>
          let wanted := (columns.zipIdx.filter fun c => evidenceColumn py c.1).map Prod.snd
          ((field data "rows").orElse (.arr [])).pyList.map fun rows =>
            rows.flatMap (rowCells wanted)
      else .ok []
    | _ => .ok []

def maxEvidenceValues : Nat := 2000

/-- `add_evidence`, on the set of the values so far. -/
def addEvidence (evidence : List Text) : Json → List Text
  | .str s =>
    let value := strip s.toList
    if value ≠ [] ∧ evidence.length < maxEvidenceValues ∧ py.lower value ∉ evidence then
      py.lower value :: evidence
    else evidence
  | _ => evidence

/-- `observe`; an artifact at which it raises ends the call, with what was
collected before. -/
def observe (evidence : List Text) : List Artifact → List Text
  | [] => evidence
  | a :: rest =>
    match evidenceCells py a with
    | .error _ => evidence
    | .ok cells => observe (cells.foldl (addEvidence py) evidence) rest

end Evidence

/-! ### The ledger -/

structure Ledger where
  userTokens : List Text
  userChars : Nat
  evidence : List Text
  maxPerTurn : Nat
  maxPerConversation : Nat
  conversationLookups : Nat
  lookups : Nat
  reserved : Nat
  egressed : Nat

/-- `TaintLedger(...)`, before its user texts. -/
def Ledger.new (conversationLookups maxPerTurn maxPerConversation : Int) : Ledger where
  userTokens := []
  userChars := 0
  evidence := []
  maxPerTurn := maxPerTurn.toNat
  maxPerConversation := maxPerConversation.toNat
  conversationLookups := conversationLookups.toNat
  lookups := 0
  reserved := 0
  egressed := 0

def maxUserTextChars : Nat := 200000

namespace Ledger

variable (py : Runtime)

def clipped (l : Ledger) (text : Text) : Text := text.take (maxUserTextChars - l.userChars)

def addUserText (l : Ledger) (text : Text) : Ledger :=
  if text = [] ∨ maxUserTextChars ≤ l.userChars then l
  else
    { l with
      userTokens := indicatorTokens py (l.clipped text) ++ l.userTokens
      userChars := l.userChars + (l.clipped text).length }

def permits (l : Ledger) : Value → Bool
  | .text t =>
    if strip t = [] then false
    else
      let needle := py.lower (strip t)
      l.evidence.contains needle || l.userTokens.contains needle
  | _ => false

def check (l : Ledger) (value : Value) (kind : KindArgument) (egress : Bool)
    (internalDomains : List Text) (allowEmail : Bool) : Bool × Option String :=
  let result := validateIndicator py value kind internalDomains allowEmail (!egress)
  if !result.ok then (false, result.reason)
  else if !(l.permits py (.text result.value) || l.permits py value) then
    (false, some refusedTaint)
  else (true, none)

def lookupsRemaining (l : Ledger) (inFlight : Int) : Int :=
  let used : Int := l.lookups + l.reserved + max 0 inFlight
  max 0 (min (l.maxPerTurn - used)
    (l.maxPerConversation - l.conversationLookups - l.egressed - used))

def canLookup (l : Ledger) : Bool := 0 < l.lookupsRemaining 0

def reserveLookup (l : Ledger) : Bool × Ledger :=
  if l.canLookup then (true, { l with reserved := l.reserved + 1 }) else (false, l)

def commitLookup (l : Ledger) : Ledger :=
  { l with reserved := l.reserved - 1, lookups := l.lookups + 1 }

def releaseLookup (l : Ledger) (egressed : Bool) : Ledger :=
  { l with
    reserved := l.reserved - 1
    egressed := if egressed then l.egressed + 1 else l.egressed }

end Ledger

structure Turn where
  ledger : Ledger
  running : Nat
  texts : List Text
  seen : List Artifact

/-- A call; `check` changes nothing.  A lookup commits or releases once, after
its reservation. -/
inductive Call where
  | addUserText (text : Text)
  | observe (artifacts : List Artifact)
  | reserve
  | commit
  | release (egressed : Bool)

section Turns
variable (py : Runtime)

def step (t : Turn) : Call → Option Turn
  | .addUserText text => some
      { t with ledger := t.ledger.addUserText py text, texts := text :: t.texts }
  | .observe artifacts => some
      { t with
        ledger := { t.ledger with evidence := observe py t.ledger.evidence artifacts }
        seen := artifacts ++ t.seen }
  | .reserve =>
    let (granted, ledger) := t.ledger.reserveLookup
    some { t with ledger, running := if granted then t.running + 1 else t.running }
  | .commit =>
    if t.running = 0 then none
    else some { t with ledger := t.ledger.commitLookup, running := t.running - 1 }
  | .release egressed =>
    if t.running = 0 then none
    else some { t with ledger := t.ledger.releaseLookup egressed, running := t.running - 1 }

def turn (conversationLookups maxPerTurn maxPerConversation : Int) : Machine Turn Call where
  start t := t = ⟨.new conversationLookups maxPerTurn maxPerConversation, 0, [], []⟩
  step := step py

/-! ### The guarantee -/

def IsEvidence (a : Artifact) (value : Text) : Prop :=
  a.provenance = some "code" ∧ ∃ cells s, evidenceCells py a = .ok cells ∧ .str s ∈ cells ∧
    value = py.lower (strip s.toList)

def Licensed (t : Turn) (value : Text) : Prop :=
  (∃ text ∈ t.texts, Licenses py text value) ∨ ∃ a ∈ t.seen, IsEvidence py a value

/-- **Only licensed indicators leave the deployment**, and no more than the
budgets allow. -/
structure Guarded (t : Turn) : Prop where
  licensed : ∀ value kind egress internalDomains allowEmail,
    (t.ledger.check py value kind egress internalDomains allowEmail).1 = true →
      ∃ spelling, (value = .text spelling ∨ spelling =
          (validateIndicator py value kind internalDomains allowEmail (!egress)).value) ∧
        Licensed py t (py.lower (strip spelling))
  hosts : ∀ value kind internalDomains allowEmail,
    (t.ledger.check py value kind true internalDomains allowEmail).1 = true →
      ∃ k, (validateIndicator py value kind internalDomains allowEmail false).kind = some k ∧
        ∀ host, hostOf py (strip value.shown) k = some host → Public py internalDomains host
  turn : t.ledger.lookups + t.ledger.reserved ≤ t.ledger.maxPerTurn
  conversation : t.ledger.conversationLookups + t.ledger.egressed + t.ledger.lookups +
    t.ledger.reserved ≤ t.ledger.maxPerConversation

/-- When a call keeps the guarantee: what is read of a user text licenses nothing
that the text does not, and each of its tokens with an `@` is an e-mail address. -/
def Keeps (t : Turn) : Call → Prop
  | .addUserText text =>
    text ≠ [] → t.ledger.userChars < maxUserTextChars →
      (∀ value, Licenses py (t.ledger.clipped text) value → Licenses py text value) ∧
        EmailsOnly py (t.ledger.clipped text)
  | _ => True

structure Sound (t : Turn) : Prop where
  tokens : ∀ value ∈ t.ledger.userTokens, ∃ text ∈ t.texts, Licenses py text value
  evidence : ∀ value ∈ t.ledger.evidence, ∃ a ∈ t.seen, IsEvidence py a value
  running : t.ledger.reserved = t.running
  turn : t.ledger.lookups + t.ledger.reserved ≤ t.ledger.maxPerTurn
  conversation : t.ledger.conversationLookups + t.ledger.egressed + t.ledger.lookups +
    t.ledger.reserved ≤ t.ledger.maxPerConversation

end Turns

variable {py : Runtime} {t t' : Turn}

theorem Sound.licensed (h : Sound py t) {value : Value}
    (hpermits : t.ledger.permits py value = true) :
    ∃ spelling, value = .text spelling ∧ Licensed py t (py.lower (strip spelling)) := by
  cases value with
  | none | other shown => cases hpermits
  | text spelling =>
    refine ⟨spelling, rfl, ?_⟩
    simp only [Ledger.permits] at hpermits
    split at hpermits
    · cases hpermits
    · simp only [Bool.or_eq_true, contains_iff_mem] at hpermits
      rcases hpermits with hevidence | htoken
      · exact .inr (h.evidence _ hevidence)
      · exact .inl (h.tokens _ htoken)

variable {l : Ledger} {evidence : List Text} {token : Text} {n : Nat}

theorem check_allows {value : Value} {kind : KindArgument} {egress : Bool}
    {internalDomains : List Text} {allowEmail : Bool}
    (h : (l.check py value kind egress internalDomains allowEmail).1 = true) :
    (validateIndicator py value kind internalDomains allowEmail (!egress)).ok = true ∧
      (l.permits py (.text (validateIndicator py value kind internalDomains allowEmail
        (!egress)).value) = true ∨ l.permits py value = true) := by
  unfold Ledger.check at h
  dsimp only at h
  split at h
  · cases h
  rename_i hok
  split at h
  · cases h
  rename_i hpermits
  simp only [Bool.not_eq_true', Bool.not_eq_false] at hok hpermits
  exact ⟨hok, Bool.or_eq_true _ _ |>.mp hpermits⟩

theorem Sound.guarded (h : Sound py t) : Guarded py t := by
  constructor
  · intro value kind egress internalDomains allowEmail hcheck
    obtain ⟨-, hnormal | hspelled⟩ := check_allows hcheck
    · obtain ⟨spelling, heq, hlicensed⟩ := h.licensed hnormal
      cases heq
      exact ⟨_, .inr rfl, hlicensed⟩
    · obtain ⟨spelling, rfl, hlicensed⟩ := h.licensed hspelled
      exact ⟨spelling, .inl rfl, hlicensed⟩
  · intro value kind internalDomains allowEmail hcheck
    exact public_of_accepted (check_allows hcheck).1
  · exact h.turn
  · exact h.conversation

variable {cells : List Json} {cell : Json}

theorem code_of_evidenceCells {a : Artifact} (h : evidenceCells py a = .ok cells)
    (hcell : cell ∈ cells) : a.provenance = some "code" := by
  by_contra hne
  rw [evidenceCells, if_pos hne] at h
  cases h
  cases hcell

variable {value : Text}

theorem mem_addEvidence (h : value ∈ addEvidence py evidence cell) :
    value ∈ evidence ∨ ∃ s, cell = .str s ∧ value = py.lower (strip s.toList) := by
  cases cell with
  | str s =>
    simp only [addEvidence] at h
    split at h
    · rcases mem_cons.mp h with rfl | h
      · exact .inr ⟨s, rfl, rfl⟩
      · exact .inl h
    · exact .inl h
  | _ => exact .inl h

theorem mem_foldl_addEvidence (h : value ∈ cells.foldl (addEvidence py) evidence) :
    value ∈ evidence ∨ ∃ s, .str s ∈ cells ∧ value = py.lower (strip s.toList) := by
  induction cells generalizing evidence with
  | nil => exact .inl h
  | cons cell cells ih =>
    rcases ih h with hadded | ⟨s, hs, heq⟩
    · rcases mem_addEvidence hadded with hold | ⟨s, rfl, heq⟩
      · exact .inl hold
      · exact .inr ⟨s, mem_cons_self .., heq⟩
    · exact .inr ⟨s, mem_cons_of_mem _ hs, heq⟩

variable {artifacts : List Artifact}

theorem mem_observe (h : value ∈ observe py evidence artifacts) :
    value ∈ evidence ∨ ∃ a ∈ artifacts, IsEvidence py a value := by
  induction artifacts generalizing evidence with
  | nil => exact .inl h
  | cons a rest ih =>
    simp only [observe] at h
    split at h
    · exact .inl h
    · rename_i cells hcells
      rcases ih h with hadded | ⟨b, hb, hevidence⟩
      · rcases mem_foldl_addEvidence hadded with hold | ⟨s, hs, heq⟩
        · exact .inl hold
        · have hcode := code_of_evidenceCells hcells hs
          exact .inr ⟨a, mem_cons_self .., hcode, cells, s, hcells, hs, heq⟩
      · exact .inr ⟨b, mem_cons_of_mem _ hb, hevidence⟩

variable {text : Text}

theorem Sound.addUserText (h : Sound py t) (hkeeps : Keeps py t (.addUserText text))
    (hstep : step py t (.addUserText text) = some t') : Sound py t' := by
  cases hstep
  have hold : ∀ value, (∃ s ∈ t.texts, Licenses py s value) →
      ∃ s ∈ text :: t.texts, Licenses py s value := by
    rintro value ⟨s, hs, hlicenses⟩
    exact ⟨s, mem_cons_of_mem _ hs, hlicenses⟩
  unfold Ledger.addUserText
  split
  · exact ⟨fun v hv => hold v (h.tokens v hv), h.evidence, h.running, h.turn, h.conversation⟩
  · rename_i hread
    rw [not_or, not_le] at hread
    obtain ⟨hclipped, hemails⟩ := hkeeps hread.1 hread.2
    refine ⟨?_, h.evidence, h.running, h.turn, h.conversation⟩
    intro value hvalue
    rcases mem_append.mp hvalue with hnew | hvalue
    · exact ⟨text, mem_cons_self .., hclipped value (licenses_of_mem hemails hnew)⟩
    · exact hold value (h.tokens value hvalue)

theorem Sound.observe (h : Sound py t) (hstep : step py t (.observe artifacts) = some t') :
    Sound py t' := by
  cases hstep
  refine ⟨h.tokens, ?_, h.running, h.turn, h.conversation⟩
  intro value hvalue
  rcases mem_observe hvalue with hold | ⟨a, ha, hevidence⟩
  · obtain ⟨a, ha, hevidence⟩ := h.evidence value hold
    exact ⟨a, mem_append_right _ ha, hevidence⟩
  · exact ⟨a, mem_append_left _ ha, hevidence⟩

theorem room_of_canLookup (h : l.canLookup = true) :
    l.lookups + l.reserved + 1 ≤ l.maxPerTurn ∧
      l.conversationLookups + l.egressed + l.lookups + l.reserved + 1 ≤ l.maxPerConversation := by
  have hroom : 0 < l.lookupsRemaining 0 := of_decide_eq_true h
  simp only [Ledger.lookupsRemaining] at hroom
  omega

theorem Sound.reserve (h : Sound py t) (hstep : step py t .reserve = some t') : Sound py t' := by
  simp only [Taint.step, Option.some.injEq, Ledger.reserveLookup] at hstep
  subst hstep
  by_cases hroom : t.ledger.canLookup = true
  · simp only [hroom, if_true]
    obtain ⟨hturn, hconversation⟩ := room_of_canLookup hroom
    refine ⟨h.tokens, h.evidence, ?_, ?_, ?_⟩
    · simp [h.running]
    · dsimp only
      omega
    · dsimp only
      omega
  · simp only [hroom, if_false, Bool.false_eq_true]
    exact ⟨h.tokens, h.evidence, h.running, h.turn, h.conversation⟩

theorem Sound.commit (h : Sound py t) (hstep : step py t .commit = some t') : Sound py t' := by
  simp only [step, Option.ite_none_left_eq_some, Option.some.injEq] at hstep
  obtain ⟨hrunning, rfl⟩ := hstep
  have hreserved := h.running
  have hturn := h.turn
  have hconversation := h.conversation
  refine ⟨h.tokens, h.evidence, ?_, ?_, ?_⟩
  all_goals
    simp only [Ledger.commitLookup]
    omega

theorem Sound.release (h : Sound py t) {egressed : Bool}
    (hstep : step py t (.release egressed) = some t') : Sound py t' := by
  simp only [step, Option.ite_none_left_eq_some, Option.some.injEq] at hstep
  obtain ⟨hrunning, rfl⟩ := hstep
  have hreserved := h.running
  have hturn := h.turn
  have hconversation := h.conversation
  refine ⟨h.tokens, h.evidence, ?_, ?_, ?_⟩
  · simp only [Ledger.releaseLookup]
    omega
  · simp only [Ledger.releaseLookup]
    omega
  · cases egressed with
    | true =>
      simp only [Ledger.releaseLookup, if_true]
      omega
    | false =>
      simp only [Ledger.releaseLookup, Bool.false_eq_true, if_false]
      omega

theorem Sound.step (h : Sound py t) {c : Call} (hkeeps : Keeps py t c)
    (hstep : step py t c = some t') : Sound py t' := by
  cases c with
  | addUserText text => exact h.addUserText hkeeps hstep
  | observe artifacts => exact h.observe hstep
  | reserve => exact h.reserve hstep
  | commit => exact h.commit hstep
  | release egressed => exact h.release hstep

/-- A text that is read whole, with e-mail addresses only at each `@`, keeps the guarantee. -/
theorem keeps_of_fits (hroom : t.ledger.userChars + text.length ≤ maxUserTextChars)
    (hemails : EmailsOnly py text) : Keeps py t (.addUserText text) := by
  intro _ _
  have hwhole : t.ledger.clipped text = text := take_of_length_le (by omega)
  rw [hwhole]
  exact ⟨fun _ hlicenses => hlicenses, hemails⟩

/-- **The guarantee over a turn.**  A ledger that starts within its conversation
budget keeps the guarantee through every turn whose calls do. -/
theorem guarded_of_keeps (py : Runtime) {conversationLookups maxPerTurn maxPerConversation : Int}
    (hbudget : conversationLookups.toNat ≤ maxPerConversation.toNat) {t : Turn}
    (h : (turn py conversationLookups maxPerTurn maxPerConversation).Reaches (Keeps py) t) :
    Guarded py t := by
  have hsound : Sound py t := by
    refine Machine.invariant (I := Sound py) ?_ ?_ h
    · rintro t rfl
      refine ⟨?_, ?_, rfl, Nat.zero_le _, hbudget⟩
      · intro value hvalue
        cases hvalue
      · intro value hvalue
        cases hvalue
    · exact fun t c t' hsound hkeeps hstep => hsound.step hkeeps hstep
  exact hsound.guarded

/-! ### Two turns -/

def typedAddress : Text := ['8', '.', '8', '.', '8', '.', '8', '8']

def shorterAddress : Text := ['8', '.', '8', '.', '8', '.', '8']

def asciiRuntime : Runtime where
  lower t := t.map Char.toLower
  isDecimal := Char.isDigit
  ipAddress t :=
    if t = typedAddress ∨ t = shorterAddress then some ⟨t, true, false, false, false⟩ else none
  urlsplit _ := none

theorem wholeToken_eq (h : WholeToken py text token)
    (hfree : (refang (py.lower text)).any splitsTokens = false) :
    token = trimEnds trimsToken (refang (py.lower text)) := by
  obtain ⟨-, piece, hrun, rfl⟩ := h
  have hall : ∀ c ∈ refang (py.lower text), splitsTokens c = false := by
    simpa using any_eq_false.mp hfree
  rw [hrun.eq_of_free hall]

theorem refang_blanks (n : Nat) : refang (List.replicate n ' ') = List.replicate n ' ' := by
  have hblank : ∀ c : Char, c ≠ ' ' → c ∉ List.replicate n ' ' :=
    fun c hc hmem => hc (eq_of_mem_replicate hmem)
  simp only [refang, refangings, foldl_cons, foldl_nil]
  rw [replaceAll_of_notMem (hblank '[' (by decide)), replaceAll_of_notMem (hblank '(' (by decide)),
    replaceAll_of_notMem (hblank '\x7b' (by decide)),
    replaceAll_of_notMem (hblank '[' (by decide)), replaceAll_of_notMem (hblank '[' (by decide))]
  have hxxps : "hxxps://".toList = 'h' :: "xxps://".toList := by decide
  have hxxp : "hxxp://".toList = 'h' :: "xxp://".toList := by decide
  rw [hxxps, hxxp, replaceAll_of_notMem (hblank 'h' (by decide)),
    replaceAll_of_notMem (hblank 'h' (by decide))]

theorem not_wholeToken_blanks :
    ¬ WholeToken asciiRuntime (List.replicate n ' ') token := by
  rintro ⟨-, piece, hrun, -⟩
  have hlower : asciiRuntime.lower (List.replicate n ' ') = List.replicate n ' ' :=
    map_replicate
  rw [hlower, refang_blanks] at hrun
  refine not_run_of_all ?_ hrun
  intro c hc
  rw [eq_of_mem_replicate hc]
  decide

theorem indicatorTokens_blanks (n : Nat) :
    indicatorTokens asciiRuntime (List.replicate n ' ') = [] := by
  rw [eq_nil_iff_forall_not_mem]
  intro value hvalue
  obtain ⟨token, htoken, -⟩ := mem_indicatorTokens hvalue
  exact not_wholeToken_blanks htoken

theorem only_typed (h : WholeToken asciiRuntime typedAddress token) :
    token = typedAddress := by
  rw [wholeToken_eq h (by decide)]
  decide

theorem check_congr {l' : Ledger} (hevidence : l.evidence = l'.evidence)
    (htokens : l.userTokens = l'.userTokens) :
    l.check py = l'.check py := by
  have hpermits : l.permits py = l'.permits py := by
    funext value
    cases value with
    | text spelling => simp [Ledger.permits, hevidence, htokens]
    | _ => rfl
  funext value kind egress internalDomains allowEmail
  simp [Ledger.check, hpermits]

theorem addUserText_blanks (hn : 0 < n) (hroom : l.userChars + n ≤ maxUserTextChars) :
    l.addUserText asciiRuntime (List.replicate n ' ') =
      { l with userChars := l.userChars + n } := by
  have hclipped : l.clipped (List.replicate n ' ') = List.replicate n ' ' := by
    apply take_of_length_le
    rw [length_replicate]
    omega
  have hread : ¬ (List.replicate n ' ' = [] ∨ maxUserTextChars ≤ l.userChars) := by
    rw [replicate_eq_nil_iff]
    omega
  rw [Ledger.addUserText, if_neg hread, hclipped, indicatorTokens_blanks, length_replicate]
  rfl

theorem addUserText_cut (hroom : maxUserTextChars - l.userChars = 7) :
    l.addUserText asciiRuntime typedAddress =
      { l with userTokens := shorterAddress :: l.userTokens, userChars := l.userChars + 7 } := by
  have hclipped : l.clipped typedAddress = shorterAddress := by
    rw [Ledger.clipped, hroom]
    rfl
  have hread : ¬ (typedAddress = [] ∨ maxUserTextChars ≤ l.userChars) := by
    simp only [typedAddress, reduceCtorEq, false_or]
    omega
  have htokens : indicatorTokens asciiRuntime shorterAddress = [shorterAddress] := by
    decide
  rw [Ledger.addUserText, if_neg hread, hclipped, htokens]
  rfl

theorem not_licensed_shorter (htexts : t.texts = [typedAddress, List.replicate n ' '])
    (hseen : t.seen = []) : ¬ Licensed asciiRuntime t shorterAddress := by
  rintro (⟨text, htext, token, htoken, hvalue⟩ | ⟨a, ha, -⟩)
  · rw [htexts, mem_cons, mem_singleton] at htext
    rcases htext with rfl | rfl
    · rw [only_typed htoken] at hvalue
      revert hvalue
      decide
    · exact not_wholeToken_blanks htoken
  · rw [hseen] at ha
    cases ha

theorem allowed_shorter (hevidence : l.evidence = []) (htokens : l.userTokens = [shorterAddress]) :
    (l.check asciiRuntime (.text shorterAddress) .none true [] false).1 = true := by
  have hsame : l.check asciiRuntime =
      Ledger.check asciiRuntime { Ledger.new 0 3 10 with userTokens := [shorterAddress] } :=
    check_congr hevidence htokens
  rw [hsame]
  decide

/-- After 199,993 blanks only seven characters of the next text are read: the
user typed `8.8.8.88`, and the address `8.8.8.8` may be sent. -/
theorem fragment_licensed :
    ∃ t, (turn asciiRuntime 0 3 10).Reaches Machine.anyStep t ∧
      t.texts = [typedAddress, List.replicate 199993 ' '] ∧
      (t.ledger.check asciiRuntime (.text shorterAddress) .none true [] false).1 = true ∧
      ¬ Guarded asciiRuntime t := by
  have hrun : ∀ n, n = 199993 → ∃ t, (turn asciiRuntime 0 3 10).Reaches Machine.anyStep t ∧
      t.texts = [typedAddress, List.replicate n ' '] ∧
      (t.ledger.check asciiRuntime (.text shorterAddress) .none true [] false).1 = true ∧
      ¬ Guarded asciiRuntime t := by
    intro n hn
    have hstart : (turn asciiRuntime 0 3 10).Reaches Machine.anyStep ⟨.new 0 3 10, 0, [], []⟩ :=
      Machine.Reaches.start rfl
    have hblanks := hstart.step (e := Call.addUserText (List.replicate n ' ')) trivial rfl
    rw [addUserText_blanks (by omega) (by simp only [Ledger.new, maxUserTextChars]; omega)]
      at hblanks
    have hcut := hblanks.step (e := Call.addUserText typedAddress) trivial rfl
    rw [addUserText_cut (by simp only [Ledger.new, maxUserTextChars]; omega)] at hcut
    refine ⟨_, hcut, rfl, allowed_shorter rfl rfl, ?_⟩
    intro hguarded
    obtain ⟨spelling, hspelling, hlicensed⟩ :=
      hguarded.licensed (.text shorterAddress) .none true [] false (allowed_shorter rfl rfl)
    have hsame : spelling = shorterAddress := by
      rcases hspelling with heq | rfl
      · exact (Value.text.inj heq).symm
      · decide
    rw [hsame] at hlicensed
    exact not_licensed_shorter rfl rfl hlicensed
  exact hrun 199993 rfl

/-- The user types an address; a lookup of it runs and succeeds. -/
theorem guarded_of_lookup :
    ∃ t, (turn asciiRuntime 0 3 10).Reaches (Keeps asciiRuntime) t ∧ t.ledger.lookups = 1 ∧
      (t.ledger.check asciiRuntime (.text shorterAddress) .none true [] false).1 = true ∧
      Guarded asciiRuntime t := by
  have hemails : EmailsOnly asciiRuntime shorterAddress := by
    intro token htoken _ hat
    rw [wholeToken_eq htoken (by decide)] at hat
    exact absurd hat (by decide)
  have hstart : (turn asciiRuntime 0 3 10).Reaches (Keeps asciiRuntime) ⟨.new 0 3 10, 0, [], []⟩ :=
    Machine.Reaches.start rfl
  have htyped := hstart.step (e := Call.addUserText shorterAddress)
    (keeps_of_fits (by decide) hemails) rfl
  have hreserved := htyped.step (e := Call.reserve) trivial rfl
  have hcommitted := hreserved.step (e := Call.commit) trivial rfl
  exact ⟨_, hcommitted, by decide, by decide,
    guarded_of_keeps asciiRuntime (by decide) hcommitted⟩

end AgenticKibana.Taint
