import AgenticKibana.Library.TextLines
import AgenticKibana.Library.Tokens

/-!
# Which indicators may be sent at all

`validate_indicator` reads a value as the kind it claims, or as the kind that `detect_kind` finds,
and refuses what must not leave the deployment.  The parsers of addresses and of URLs, `str.lower`
and the decimal digits of all scripts are parameters; nothing is assumed of them.

A text licenses its tokens: the stretches between separators, trimmed, and the hosts and domains
they stand for.  The code takes every token with an `@` for an e-mail address; `EmailsOnly` is the
condition under which each of them is one.
-/

namespace AgenticKibana.Taint

open Option
open Library.TextLines (isSpace strip)
open Library.Tokens (trimEnd)

abbrev Text := List Char

/-- An address, as `ipaddress` answers it. -/
structure Address where
  text : Text
  isGlobal : Bool
  isMulticast : Bool
  isUnspecified : Bool
  /-- It is in one of the documentation networks of Demo Mode. -/
  inDemoNetworks : Bool

/-- What the code uses of its runtime.  `urlsplit` answers the scheme and the
host name; it and `ipAddress` answer `none` where they raise a `ValueError`. -/
structure Runtime where
  lower : Text → Text
  isDecimal : Char → Bool
  ipAddress : Text → Option Address
  urlsplit : Text → Option (Text × Option Text)

/-- `IndicatorKind`. -/
inductive Kind where
  | ip
  | domain
  | url
  | fileHash
  | email
  | host
deriving DecidableEq

def kindAliases : List (String × Kind) :=
  [("ip", .ip), ("domain", .domain), ("url", .url), ("file_hash", .fileHash), ("hash", .fileHash),
    ("email", .email), ("host", .host)]

/-- A value of any type: a text, or what `str` makes of it. -/
inductive Value where
  | none
  | text (t : Text)
  | other (shown : Text)

/-- `str(value if value is not None else "")`. -/
def Value.shown : Value → Text
  | .none => []
  | .text t => t
  | .other t => t

inductive KindArgument where
  | none
  | kind (k : Kind)
  | name (t : Text)

/-! ### Refusals -/

def maxIndicatorChars : Nat := 512

def refusedInvalid (kind : String) : String := "not a valid " ++ kind
def refusedPrivateIp : String :=
  "private, reserved, loopback or link-local addresses are never sent to third parties"
def refusedSingleLabel : String :=
  "single-label or special-use host names are never sent to third parties"
def refusedInternal : String := "internal domains are never sent to third parties"
def refusedEmail : String := "e-mail addresses are not sent to third parties on this deployment"
def refusedTaint : String := "indicator not from user or evidence"

structure IndicatorCheck where
  value : Text := []
  kind : Option Kind := none
  reason : Option String := none

def IndicatorCheck.ok (c : IndicatorCheck) : Bool := c.reason.isNone && c.kind.isSome

/-! ### The patterns -/

/-- What `$` leaves of a text: a line feed at its end does not count. -/
def beforeEnd (t : Text) : Text :=
  match t.getLast? with
  | some '\n' => t.dropLast
  | _ => t

def isLowerLetter (c : Char) : Bool := 'a' ≤ c && c ≤ 'z'
def isAsciiDigit (c : Char) : Bool := '0' ≤ c && c ≤ '9'

/-- `_HASH_RE`. -/
def hashMatch (t : Text) : Bool :=
  let body := beforeEnd t
  body.all (fun c => isAsciiDigit c || ('a' ≤ c && c ≤ 'f')) &&
    (body.length == 32 || body.length == 40 || body.length == 64)

/-- `_EMAIL_RE`, with the domain it captures. -/
def emailMatch (t : Text) : Option Text :=
  let name := fun c => c != '@' && !isSpace c
  let body := beforeEnd t
  let sender := body.takeWhile name
  match body.drop sender.length with
  | '@' :: domain =>
    if 1 ≤ sender.length ∧ sender.length ≤ 64 ∧ 1 ≤ domain.length ∧ domain.length ≤ 253 ∧
        domain.all name then
      some domain
    else none
  | _ => none

/-- `_LABEL_RE`: letters, digits and inner hyphens, at most 63 of them. -/
def labelMatch (t : Text) : Bool :=
  let body := beforeEnd t
  let edge := fun c => isLowerLetter c || isAsciiDigit c
  body.length ≤ 63 && body.head?.any edge && body.getLast?.any edge &&
    body.all fun c => edge c || c == '-'

/-- `_TLD_RE`: letters alone, or the form of an international name. -/
def tldMatch (t : Text) : Bool :=
  let body := beforeEnd t
  (2 ≤ body.length && body.length ≤ 63 && body.all isLowerLetter) ||
    (['x', 'n', '-', '-'].isPrefixOf body && 5 ≤ body.length && body.length ≤ 63 &&
      (body.drop 4).all fun c => isLowerLetter c || isAsciiDigit c || c == '-')

def specialSuffixes : List Text :=
  ["localhost".toList, "local".toList, "internal".toList, "intranet".toList, "lan".toList,
    "home".toList, "corp".toList, "private".toList, "home.arpa".toList, "arpa".toList,
    "test".toList, "invalid".toList, "example".toList, "localdomain".toList]

def demoSuffixes : List Text := ["example".toList, "test".toList, "invalid".toList]

/-! ### The validation -/

section Validation
variable (py : Runtime)

def detectKind (value : Text) : Kind :=
  let text := strip value
  if (py.ipAddress text).isSome then .ip
  else if hashMatch (py.lower text) then .fileHash
  else if (emailMatch text).isSome then .email
  else if "://".toList <:+: text ∨ '/' ∈ text then .url
  else .domain

def ipRefusal (a : Address) (demo : Bool) : Option String :=
  if demo && a.inDemoNetworks then none
  else if !a.isGlobal || a.isMulticast || a.isUnspecified then some refusedPrivateIp
  else none

def normaliseHost (host : Text) : Text := py.lower (trimEnd (· == '.') (strip host))

def internalSuffix (raw : Text) : Text :=
  ((normaliseHost py raw).dropWhile fun c => c == '*' || c == '.').dropWhile (· == '.')

def Below (host suffix : Text) : Prop := host = suffix ∨ '.' :: suffix <:+ host

instance (host suffix : Text) : Decidable (Below host suffix) := inferInstanceAs (Decidable (_ ∨ _))

def domainRefusal (host : Text) (internalDomains : List Text) (demo : Bool) : Option String :=
  if host = [] ∨ 253 < host.length then some (refusedInvalid "domain")
  else
    let labels := host.splitOn '.'
    if labels.length < 2 then some refusedSingleLabel
    else if !(labels.all labelMatch && (labels.getLast?.any tldMatch)) then
      some (refusedInvalid "domain")
    else if specialSuffixes.any fun suffix =>
        !(demo && demoSuffixes.contains suffix) && decide (Below host suffix) then
      some refusedSingleLabel
    else if internalDomains.any fun raw =>
        internalSuffix py raw ≠ [] ∧ Below host (internalSuffix py raw) then
      some refusedInternal
    else none

/-- The kind to validate a value as: the one that was named, or the one it looks
like. -/
def resolveKind (raw : Text) : KindArgument → Option Kind
  | .none => some (detectKind py raw)
  | .kind k => some k
  | .name t =>
    if t = [] then some (detectKind py raw)
    else kindAliases.lookup (String.ofList (py.lower (strip t)))

def urlText (raw : Text) : Text := if "://".toList <:+: raw then raw else "http://".toList ++ raw

def validateIndicator (value : Value) (kind : KindArgument) (internalDomains : List Text)
    (allowEmail demo : Bool) : IndicatorCheck :=
  let raw := strip value.shown
  if raw = [] ∨ maxIndicatorChars < raw.length ∨ raw.any isSpace then
    { reason := some (refusedInvalid "indicator") }
  else
    match resolveKind py raw kind with
    | none => { reason := some (refusedInvalid "indicator kind") }
    | some .ip =>
      match py.ipAddress raw with
      | none => { reason := some (refusedInvalid "IP address") }
      | some a => { value := a.text, kind := some .ip, reason := ipRefusal a demo }
    | some .fileHash =>
      if hashMatch (py.lower raw) then { value := py.lower raw, kind := some .fileHash }
      else { reason := some (refusedInvalid "MD5, SHA-1 or SHA-256 hash") }
    | some .email =>
      match emailMatch raw with
      | none => { reason := some (refusedInvalid "e-mail address") }
      | some domain =>
        if allowEmail then
          { value := py.lower raw, kind := some .email
            reason := domainRefusal py (normaliseHost py domain) internalDomains demo }
        else { reason := some refusedEmail }
    | some .url =>
      match py.urlsplit (urlText raw) with
      | none => { reason := some (refusedInvalid "URL") }
      | some (scheme, hostname) =>
        let host := hostname.getD []
        if (scheme ≠ "http".toList ∧ scheme ≠ "https".toList) ∨ host = [] then
          { reason := some (refusedInvalid "URL") }
        else
          { value := raw, kind := some .url
            reason := match py.ipAddress host with
              | none => domainRefusal py (normaliseHost py host) internalDomains demo
              | some a => ipRefusal a demo }
    | some .domain => validateName .domain raw
    | some .host => validateName .host raw
where
  /-- A domain or a host: a public name of several labels. -/
  validateName (k : Kind) (raw : Text) : IndicatorCheck :=
    let host := normaliseHost py raw
    if (py.ipAddress host).isSome then { reason := some (refusedInvalid "domain") }
    else { value := host, kind := some k, reason := domainRefusal py host internalDomains demo }

end Validation

/-! ### What an accepted value is the host of -/

inductive Host where
  | address (a : Address)
  | name (n : Text)

section Hosts
variable (py : Runtime)

def hostOf (raw : Text) : Kind → Option Host
  | .ip => (py.ipAddress raw).map .address
  | .fileHash => none
  | .email => (emailMatch raw).map fun domain => .name (normaliseHost py domain)
  | .url => (py.urlsplit (urlText raw)).map fun parts =>
    match py.ipAddress (parts.2.getD []) with
    | some a => .address a
    | none => .name (normaliseHost py (parts.2.getD []))
  | .domain | .host => some (.name (normaliseHost py raw))

structure PublicName (internalDomains : List Text) (host : Text) : Prop where
  special : ∀ suffix ∈ specialSuffixes, ¬ Below host suffix
  internal : ∀ raw ∈ internalDomains, internalSuffix py raw ≠ [] →
    ¬ Below host (internalSuffix py raw)
  colon : ':' ∉ host
  letter : ∃ last, (host.splitOn '.').getLast? = some last ∧ ∃ c ∈ last, isLowerLetter c = true

def Public (internalDomains : List Text) : Host → Prop
  | .address a => a.isGlobal = true ∧ a.isMulticast = false ∧ a.isUnspecified = false
  | .name n => PublicName py internalDomains n

end Hosts

variable {c : Char} {text : Text}

theorem mem_piece_of_mem {sep : Char} (h : c ∈ text) (hc : c ≠ sep) :
    ∃ piece ∈ text.splitOn sep, c ∈ piece := by
  induction text with
  | nil => cases h
  | cons d rest ih =>
    rw [List.splitOn_cons_eq_if_modifyHead]
    obtain ⟨first, pieces, hsplit⟩ := List.exists_cons_of_ne_nil (List.splitOn_ne_nil sep rest)
    rw [hsplit] at ih ⊢
    by_cases hd : d = sep
    · have hrest : c ∈ rest := by
        rcases List.mem_cons.mp h with rfl | hrest
        · exact absurd hd hc
        · exact hrest
      obtain ⟨piece, hpiece, hmem⟩ := ih hrest
      exact ⟨piece, by simp [hd, hpiece], hmem⟩
    · simp only [beq_iff_eq, hd, if_false, List.modifyHead_cons]
      rcases List.mem_cons.mp h with rfl | hrest
      · exact ⟨c :: first, by simp, by simp⟩
      · obtain ⟨piece, hpiece, hmem⟩ := ih hrest
        rcases List.mem_cons.mp hpiece with rfl | hpiece
        · exact ⟨d :: piece, by simp, by simp [hmem]⟩
        · exact ⟨piece, by simp [hpiece], hmem⟩

variable {t : Text}

theorem mem_of_mem_beforeEnd (h : c ∈ beforeEnd t) : c ∈ t := by
  unfold beforeEnd at h
  split at h
  · exact List.dropLast_subset t h
  · exact h

theorem mem_beforeEnd (h : c ∈ t) (hc : c ≠ '\n') : c ∈ beforeEnd t := by
  unfold beforeEnd
  split
  · rename_i hlast
    rw [← List.dropLast_append_getLast? '\n' hlast] at h
    rcases List.mem_append.mp h with hmem | hmem
    · exact hmem
    · exact absurd (List.mem_singleton.mp hmem) hc
  · exact h

theorem colon_notMem_label (h : labelMatch t = true) : ':' ∉ t := by
  intro hmem
  simp only [labelMatch, Bool.and_eq_true, List.all_eq_true] at h
  have hcolon := h.2 ':' (mem_beforeEnd hmem (by decide))
  revert hcolon
  decide

theorem letter_of_tldMatch (h : tldMatch t = true) : ∃ c ∈ t, isLowerLetter c = true := by
  simp only [tldMatch, Bool.or_eq_true, Bool.and_eq_true, decide_eq_true_eq, List.all_eq_true] at h
  rcases h with ⟨⟨hlen, -⟩, hall⟩ | ⟨⟨⟨hstart, -⟩, -⟩, -⟩
  · obtain ⟨c, rest, hbody⟩ := List.exists_cons_of_length_pos (by omega : 0 < (beforeEnd t).length)
    have hc : c ∈ beforeEnd t := by simp [hbody]
    exact ⟨c, mem_of_mem_beforeEnd hc, hall c hc⟩
  · have hx : 'x' ∈ beforeEnd t := by
      apply (List.isPrefixOf_iff_prefix.mp hstart).subset
      simp
    exact ⟨'x', mem_of_mem_beforeEnd hx, by decide⟩

variable {py : Runtime} {internalDomains : List Text}

theorem publicName_of_domainRefusal {host : Text}
    (h : domainRefusal py host internalDomains false = none) :
    PublicName py internalDomains host := by
  unfold domainRefusal at h
  split at h
  · cases h
  dsimp only at h
  split at h
  · cases h
  split at h
  · cases h
  rename_i hlabels
  split at h
  · cases h
  rename_i hspecial
  split at h
  · cases h
  rename_i hinternal
  simp only [Bool.not_eq_true', Bool.not_eq_false, Bool.and_eq_true, List.all_eq_true] at hlabels
  obtain ⟨hall, hlast⟩ := hlabels
  constructor
  · intro suffix hsuffix hbelow
    exact hspecial (List.any_eq_true.mpr ⟨suffix, hsuffix, by simp [hbelow]⟩)
  · intro raw hraw hne hbelow
    exact hinternal (List.any_eq_true.mpr ⟨raw, hraw, by simp [hne, hbelow]⟩)
  · intro hcolon
    obtain ⟨label, hlabel, hmem⟩ := mem_piece_of_mem hcolon (show ':' ≠ '.' by decide)
    exact colon_notMem_label (hall label hlabel) hmem
  · obtain ⟨last, hget, htld⟩ := (Option.any_eq_true _ _).mp hlast
    exact ⟨last, hget, letter_of_tldMatch htld⟩

theorem global_of_ipRefusal {a : Address} (h : ipRefusal a false = none) :
    a.isGlobal = true ∧ a.isMulticast = false ∧ a.isUnspecified = false := by
  simp only [ipRefusal, Bool.false_and, Bool.false_eq_true, if_false, ite_eq_right_iff,
    reduceCtorEq, imp_false, Bool.or_eq_true, Bool.not_eq_true', not_or, Bool.not_eq_false,
    Bool.not_eq_true] at h
  exact ⟨h.1.1, h.1.2, h.2⟩

/-- **What leaves the deployment is public.**  A value that the validation accepts
outside Demo Mode has no host, a global address or a public name. -/
theorem public_of_accepted {value : Value} {kind : KindArgument} {allowEmail : Bool}
    (h : (validateIndicator py value kind internalDomains allowEmail false).ok = true) :
    ∃ k, (validateIndicator py value kind internalDomains allowEmail false).kind = some k ∧
      ∀ host, hostOf py (strip value.shown) k = some host → Public py internalDomains host := by
  have hname : ∀ k raw, hostOf py raw k = some (.name (normaliseHost py raw)) →
      (validateIndicator.validateName py internalDomains false k raw).ok = true →
      (validateIndicator.validateName py internalDomains false k raw).kind = some k ∧
        ∀ host, hostOf py raw k = some host → Public py internalDomains host := by
    intro k raw hhost hok
    unfold validateIndicator.validateName at hok ⊢
    dsimp only at hok ⊢
    split at hok
    · simp [IndicatorCheck.ok] at hok
    · rename_i hip
      simp only [IndicatorCheck.ok, isSome_some, Bool.and_true, isNone_iff_eq_none]
        at hok
      refine ⟨by simp [hip], ?_⟩
      rintro host hsome
      cases hhost.symm.trans hsome
      exact publicName_of_domainRefusal hok
  unfold validateIndicator at h ⊢
  dsimp only at h ⊢
  split at h
  · simp [IndicatorCheck.ok] at h
  rename_i hraw
  rw [if_neg hraw]
  cases hkind : resolveKind py (strip value.shown) kind with
  | none => simp [hkind, IndicatorCheck.ok] at h
  | some k =>
    rw [hkind] at h
    cases k with
    | ip =>
      dsimp only at h ⊢
      cases hip : py.ipAddress (strip value.shown) with
      | none => simp [hip, IndicatorCheck.ok] at h
      | some a =>
        simp only [hip, IndicatorCheck.ok, isSome_some, Bool.and_true,
          isNone_iff_eq_none] at h
        refine ⟨.ip, rfl, ?_⟩
        intro host hhost
        simp only [hostOf, hip, map_some, Option.some.injEq] at hhost
        exact hhost ▸ global_of_ipRefusal h
    | fileHash =>
      dsimp only at h ⊢
      split at h
      · rename_i hhash
        rw [if_pos hhash]
        refine ⟨.fileHash, rfl, ?_⟩
        rintro host ⟨⟩
      · simp [IndicatorCheck.ok] at h
    | email =>
      dsimp only at h ⊢
      cases hmatch : emailMatch (strip value.shown) with
      | none => simp [hmatch, IndicatorCheck.ok] at h
      | some domain =>
        cases allowEmail with
        | false => simp [hmatch, IndicatorCheck.ok] at h
        | true =>
          simp only [hmatch, if_true, IndicatorCheck.ok, isSome_some,
            Bool.and_true, isNone_iff_eq_none] at h
          refine ⟨.email, rfl, ?_⟩
          intro host hhost
          simp only [hostOf, hmatch, map_some, Option.some.injEq] at hhost
          exact hhost ▸ publicName_of_domainRefusal h
    | url =>
      dsimp only at h ⊢
      cases hsplit : py.urlsplit (urlText (strip value.shown)) with
      | none => simp [hsplit, IndicatorCheck.ok] at h
      | some parts =>
        simp only [hsplit] at h ⊢
        split at h
        · simp [IndicatorCheck.ok] at h
        rename_i hparts
        rw [if_neg hparts]
        simp only [IndicatorCheck.ok, isSome_some, Bool.and_true,
          isNone_iff_eq_none] at h
        refine ⟨.url, rfl, ?_⟩
        intro host hhost
        simp only [hostOf, hsplit, map_some, Option.some.injEq] at hhost
        subst hhost
        cases hip : py.ipAddress (parts.2.getD []) with
        | none =>
          rw [hip] at h
          exact publicName_of_domainRefusal h
        | some a =>
          rw [hip] at h
          exact global_of_ipRefusal h
    | domain => exact ⟨.domain, hname .domain _ rfl h⟩
    | host => exact ⟨.host, hname .host _ rfl h⟩

/-! ### What a text that the user typed licenses -/

open Library.Tokens List

/-- The class of `_TOKEN_SPLIT_RE`. -/
def splitsTokens (c : Char) : Bool :=
  isSpace c || ['<', '>', '"', '\'', '`', '(', ')', '[', ']', '\x7b', '\x7d', '|', '\\', '^', ',',
    ';'].contains c

/-- `_TOKEN_TRIM`. -/
def trimsToken (c : Char) : Bool := ['.', ':', '!', '?'].contains c

/-- `_REFANG`. -/
def refangings : List (Text × Text) :=
  [(['[', '.', ']'], ['.']), (['(', '.', ')'], ['.']), (['\x7b', '.', '\x7d'], ['.']),
    (['[', ':', ']'], [':']), (['[', '@', ']'], ['@']),
    ("hxxps://".toList, "https://".toList), ("hxxp://".toList, "http://".toList)]

def refang (text : Text) : Text :=
  refangings.foldl (fun t pair => replaceAll pair.1 pair.2 t) text

section Tokens
variable (py : Runtime)

/-- `_HOST_PORT_RE`, with the host it captures.  A token has no white space, so
`$` is its end. -/
def hostPortMatch (token : Text) : Option Text :=
  let host := token.takeWhile fun c => c != ':' && c != '/' && c != '@'
  match token.drop host.length with
  | ':' :: port =>
    if host ≠ [] ∧ 1 ≤ port.length ∧ port.length ≤ 5 ∧ port.all py.isDecimal then some host
    else none
  | _ => none

def urlHost (token : Text) : Option Text :=
  match py.urlsplit token with
  | some (_, some host) => if host = [] then none else some (trimEnd (· == '.') host)
  | _ => none

/-- `token.rsplit("@", 1)[1]`, unless it is empty. -/
def afterAt (token : Text) : Option Text :=
  let domain := (token.reverse.takeWhile (· != '@')).reverse
  if domain = [] then none else some domain

def component (token : Text) : Option Text :=
  if "://".toList <:+: token then urlHost py token
  else if '@' ∈ token then afterAt token
  else hostPortMatch py token

def indicatorTokens (text : Text) : List Text :=
  (splitRuns splitsTokens (refang (py.lower text))).flatMap fun raw =>
    let token := trimEnds trimsToken raw
    if token = [] then [] else token :: (component py token).toList

/-- A whole token of a text: what stands between separators once the defanging is
out, trimmed. -/
def WholeToken (text token : Text) : Prop :=
  token ≠ [] ∧ ∃ piece, Run splitsTokens (refang (py.lower text)) piece ∧
    token = trimEnds trimsToken piece

/-- The text licenses a value: it is a whole token of the text, the host of such
a token's URL or `host:port`, or the domain of such an e-mail address. -/
def Licenses (text value : Text) : Prop :=
  ∃ token, WholeToken py text token ∧
    (value = token ∨ ("://".toList <:+: token ∧ urlHost py token = some value) ∨
      hostPortMatch py token = some value ∨ emailMatch token = some value)

/-- Every token with an `@` that is no URL is an e-mail address. -/
def EmailsOnly (text : Text) : Prop :=
  ∀ token, WholeToken py text token → ¬ "://".toList <:+: token → '@' ∈ token →
    (emailMatch token).isSome = true

end Tokens

variable {value : Text}

theorem mem_indicatorTokens (h : value ∈ indicatorTokens py text) :
    ∃ token, WholeToken py text token ∧ (value = token ∨ component py token = some value) := by
  obtain ⟨piece, hpiece, hmem⟩ := mem_flatMap.mp h
  dsimp only at hmem
  split at hmem
  · cases hmem
  rename_i hne
  have hpiecene : piece ≠ [] := by
    rintro rfl
    exact hne rfl
  refine ⟨_, ⟨hne, piece, run_of_mem_splitRuns hpiece hpiecene, rfl⟩, ?_⟩
  rcases mem_cons.mp hmem with rfl | hmem
  · exact .inl rfl
  · exact .inr (Option.mem_toList.mp hmem)

variable {token : Text}

theorem newline_notMem_token (h : WholeToken py text token) : '\n' ∉ token := by
  obtain ⟨-, piece, hrun, rfl⟩ := h
  intro hmem
  have hpiece : '\n' ∈ piece := by
    unfold trimEnds at hmem
    have hdrop := (dropWhile_subset _) (mem_reverse.mp hmem)
    exact (dropWhile_subset _) (mem_reverse.mp hdrop)
  exact absurd (hrun.free _ hpiece) (by decide)

theorem afterAt_of_emailMatch {domain : Text} (hspace : '\n' ∉ token)
    (h : emailMatch token = some domain) : afterAt token = some domain := by
  have hbody : beforeEnd token = token := by
    unfold beforeEnd
    split
    · rename_i hlast
      exact absurd (mem_of_getLast? hlast) hspace
    · rfl
  simp only [emailMatch, hbody] at h
  split at h
  · rename_i rest hdrop
    rw [Option.ite_none_right_eq_some, Option.some.injEq] at h
    obtain ⟨⟨-, -, hlen, -, hall⟩, rfl⟩ := h
    have htoken : token = token.takeWhile (fun c => c != '@' && !isSpace c) ++ '@' :: rest := by
      rw [← hdrop]
      exact (prefix_iff_eq_append.mp (List.takeWhile_prefix _)).symm
    have hnoAt : ∀ c ∈ rest.reverse, (c != '@') = true := by
      intro c hc
      have hname := List.all_eq_true.mp hall c (mem_reverse.mp hc)
      exact (Bool.and_eq_true _ _ |>.mp hname).1
    have hafter : (token.reverse.takeWhile (· != '@')).reverse = rest := by
      rw [htoken, reverse_append, reverse_cons, append_assoc,
        takeWhile_append_of_pos hnoAt]
      simp
    have hne : rest ≠ [] := ne_nil_of_length_pos hlen
    simp [afterAt, hafter, hne]
  · cases h

/-- **Tokens are licensed.**  Where every token with an `@` is an e-mail address,
the text licenses every token the code finds. -/
theorem licenses_of_mem (hemails : EmailsOnly py text) (h : value ∈ indicatorTokens py text) :
    Licenses py text value := by
  obtain ⟨token, htoken, rfl | hcomponent⟩ := mem_indicatorTokens h
  · exact ⟨value, htoken, .inl rfl⟩
  refine ⟨token, htoken, ?_⟩
  unfold component at hcomponent
  split at hcomponent
  · rename_i hurl
    exact .inr (.inl ⟨hurl, hcomponent⟩)
  rename_i hurl
  split at hcomponent
  · rename_i hat
    obtain ⟨domain, hdomain⟩ := Option.isSome_iff_exists.mp (hemails token htoken hurl hat)
    have hafter := afterAt_of_emailMatch (newline_notMem_token htoken) hdomain
    obtain rfl : domain = value := Option.some.inj (hafter.symm.trans hcomponent)
    exact .inr (.inr (.inr hdomain))
  · exact .inr (.inr (.inl hcomponent))

end AgenticKibana.Taint
