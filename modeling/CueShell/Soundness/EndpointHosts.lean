import CueShell.Model.HostDiscovery
import CueShell.ToMathlib.Words

/-! # Hosts of composed endpoints

An endpoint is a host with a scheme in front of it, a port and a path behind it, each of which may be missing,
within quotes or brackets. A bracketed address loses its bracket to the quotes unless a scheme protects it, so it
is read only if nothing follows it then.
-/

namespace CueShell.HostDiscovery

open Text

/-- A character that is not trimmed off. -/
def IsDark (c : Char) : Prop := isWhiteSpace c = false ∧ isEndpointQuote c = false

structure Endpoint where
  front : List Char
  scheme : Option Scheme
  host : List Char
  /-- An address of the sixth version, which is put into brackets. -/
  bracketed : Bool
  port : Option (List Char)
  path : List Char
  back : List Char
  quotes : ∀ c ∈ front ++ back, isEndpointQuote c = true
  full : host ≠ []
  name : ∀ c ∈ host, c ≠ '/' ∧ IsDark c
  colons : if bracketed then 2 ≤ host.count ':' else ':' ∉ host
  digits : ∀ digits, port = some digits → digits ≠ [] ∧ ∀ c ∈ digits, c.isDigit = true
  slash : path = [] ∨ ∃ rest, path = '/' :: rest

namespace Endpoint

variable (endpoint : Endpoint)

def portText : List Char := endpoint.port.elim [] (':' :: ·)

def text : List Char :=
  endpoint.front ++ (endpoint.scheme.elim [] Scheme.text ++
    (if endpoint.bracketed then '[' :: endpoint.host ++ [']'] else endpoint.host) ++ endpoint.portText ++
      endpoint.path) ++ endpoint.back

end Endpoint

section Trimming

variable {p : Char → Bool} {c : Char} {front mid tail : List Char}

theorem isWhiteSpace_of_quote (quote : isEndpointQuote c = true) : isWhiteSpace c = false := by
  simp only [isEndpointQuote, Bool.or_eq_true, beq_iff_eq] at quote
  rcases quote with ((code | code) | code) | code <;> simp [isWhiteSpace, code]

/-- A text that neither starts nor ends with what is trimmed off. -/
structure Solid (text : List Char) : Prop where
  full : text ≠ []
  first : ∀ c ∈ text.head?, IsDark c
  last : ∀ c ∈ text.getLast?, IsDark c

/-- Quotes in front of a solid text are trimmed off, and so are quotes behind it. -/
theorem trimEndpointToken_solid (quotes : ∀ c ∈ front, isEndpointQuote c = true) (solid : Solid mid)
    (tail : List Char) : ∃ rest, trimEndpointToken (trim (front ++ mid ++ tail)) = mid ++ rest ∧
      ((∀ c ∈ tail, isEndpointQuote c = true) → rest = []) := by
  have start : trimStart (front ++ mid ++ tail) = front ++ mid ++ tail := by
    refine dropWhile_of_head fun c first => ?_
    cases front with
    | nil =>
      rw [List.nil_append, List.head?_append_of_ne_nil _ solid.full] at first
      exact (solid.first c first).1
    | cons d front =>
      obtain rfl : d = c := by simpa using first
      exact isWhiteSpace_of_quote (quotes d (by simp))
  have ends : trim (front ++ mid ++ tail) = front ++ (mid ++ trimEnd tail) := by
    rw [trim, start, trimEnd, dropEnd_append, ← trimEnd, List.append_assoc]
    intro c last
    rw [List.getLast?_append_of_ne_nil _ solid.full] at last
    exact (solid.last c last).1
  have head : ∀ c ∈ (mid ++ trimEnd tail).head?, isEndpointQuote c = false := by
    intro c first
    rw [List.head?_append_of_ne_nil _ solid.full] at first
    exact (solid.first c first).2
  refine ⟨((trimEnd tail).reverse.dropWhile isEndpointQuote).reverse, ?_, fun all => ?_⟩
  · rw [trimEndpointToken, ends, List.dropWhile_append_of_pos quotes, dropWhile_of_head head,
      dropEnd_append fun c last => (solid.last c last).2]
  · have inside : ∀ c ∈ (trimEnd tail).reverse, c ∈ tail := by
      intro c member
      rw [trimEnd, List.reverse_reverse] at member
      exact List.mem_reverse.mp ((List.dropWhile_sublist _).subset member)
    rw [List.dropWhile_eq_nil_iff.mpr fun c member => all c (inside c member), List.reverse_nil]

end Trimming

section Schemes

variable {authority rest token : List Char}

def Scheme.letters : Scheme → List Char
  | .tcp => ['t', 'c', 'p']
  | .udp => ['u', 'd', 'p']
  | .http => ['h', 't', 't', 'p']
  | .https => ['h', 't', 't', 'p', 's']

theorem Scheme.text_eq (scheme : Scheme) : scheme.text = scheme.letters ++ [':', '/', '/'] := by
  cases scheme <;> rfl

theorem stripScheme_text (scheme : Scheme) (rest : List Char) : stripScheme (scheme.text ++ rest) = rest := by
  cases scheme <;> simp [stripScheme, Scheme.all, Scheme.text_eq, Scheme.letters, stripPrefix]

theorem stripScheme_other (other : ∀ scheme : Scheme, ¬ scheme.text <+: token) :
    stripScheme token = token := by
  have none : Scheme.all.findSome? (fun scheme => stripPrefix scheme.text token) = none := by
    rw [List.findSome?_eq_none_iff]
    intro scheme _
    rw [stripPrefix, if_neg (by simpa using other scheme)]
  rw [stripScheme, none, Option.getD_none]

/-- In front of the slashes of a scheme there is a single colon, at the end. -/
theorem authority_of_scheme {scheme : Scheme} (starts : scheme.text <+: token) :
    ∃ letters, token.takeWhile (· ≠ '/') = letters ++ [':'] ∧ ':' ∉ letters := by
  obtain ⟨more, rfl⟩ := starts
  rw [Scheme.text_eq]
  refine ⟨scheme.letters, ?_, ?_⟩
  · cases scheme <;> simp [Scheme.letters]
  · cases scheme <;> decide

theorem takeWhile_authority (clean : '/' ∉ authority) (slash : rest = [] ∨ ∃ more, rest = '/' :: more) :
    (authority ++ rest).takeWhile (· ≠ '/') = authority := by
  have all : ∀ c ∈ authority, decide (c ≠ '/') = true := by
    intro c member
    exact decide_eq_true fun same => clean (same ▸ member)
  rw [List.takeWhile_append_of_pos all]
  rcases slash with rfl | ⟨more, rfl⟩
  · simp
  · simp

end Schemes

namespace Endpoint

variable (endpoint : Endpoint)

/-- The bracket that is left in front of an address. -/
def opening : List Char := if endpoint.bracketed && endpoint.scheme.isSome then ['['] else []

/-- The bracket that is left behind an address. -/
def closing : List Char :=
  if endpoint.bracketed && (endpoint.port.isSome || !endpoint.path.isEmpty) then [']'] else []

/-- The host and the port with the brackets that trimming leaves. -/
def shown : List Char := endpoint.opening ++ endpoint.host ++ endpoint.closing ++ endpoint.portText

/-- What trimming leaves, up to the slash of the path. -/
def solid : List Char :=
  endpoint.scheme.elim [] Scheme.text ++ endpoint.shown ++ if endpoint.path.isEmpty then [] else ['/']

/-- What is trimmed off in front, and what is behind the slash of the path. -/
def lead : List Char :=
  endpoint.front ++ if endpoint.bracketed && endpoint.scheme.isNone then ['['] else []

def trail : List Char :=
  (if endpoint.bracketed && (endpoint.port.isNone && endpoint.path.isEmpty) then [']'] else []) ++
    endpoint.path.tail ++ endpoint.back

theorem text_eq : endpoint.text = endpoint.lead ++ endpoint.solid ++ endpoint.trail := by
  obtain ⟨front, scheme, host, bracketed, port, path, back, quotes, full, name, colons, digits, slash⟩ := endpoint
  simp only [text, lead, solid, shown, opening, closing, trail, portText]
  cases scheme <;> cases bracketed <;> cases port <;> rcases slash with rfl | ⟨rest, rfl⟩ <;> simp

theorem isEndpointQuote_bracket : isEndpointQuote '[' = true ∧ isEndpointQuote ']' = true := by decide

theorem lead_quotes : ∀ c ∈ endpoint.lead, isEndpointQuote c = true := by
  intro c member
  rcases List.mem_append.mp member with outer | inner
  · exact endpoint.quotes c (List.mem_append_left _ outer)
  · split at inner
    · exact List.mem_singleton.mp inner ▸ isEndpointQuote_bracket.1
    · cases inner

theorem trail_quotes (pathless : endpoint.path = []) : ∀ c ∈ endpoint.trail, isEndpointQuote c = true := by
  intro c member
  rw [trail, pathless, List.tail_nil, List.append_nil] at member
  rcases List.mem_append.mp member with inner | outer
  · split at inner
    · exact List.mem_singleton.mp inner ▸ isEndpointQuote_bracket.2
    · cases inner
  · exact endpoint.quotes c (List.mem_append_right _ outer)

theorem isDark_of_digit {c : Char} (digit : c.isDigit = true) : IsDark c ∧ c ≠ '/' ∧ c ≠ ':' := by
  have bounds := Char.isDigit_iff_toNat.mp digit
  have nine : '9'.toNat = 57 := rfl
  have zero : '0'.toNat = 48 := rfl
  refine ⟨⟨isWhiteSpace_of_isDigit digit, ?_⟩, ?_, ?_⟩
  · simp only [isEndpointQuote, Bool.or_eq_false_iff, beq_eq_false_iff_ne]
    omega
  · rintro rfl
    cases digit
  · rintro rfl
    cases digit

theorem isDark_letters (scheme : Scheme) : ∃ c rest, scheme.text = c :: rest ∧ IsDark c := by
  cases scheme
  · exact ⟨'t', _, Scheme.text_eq .tcp, rfl, rfl⟩
  · exact ⟨'u', _, Scheme.text_eq .udp, rfl, rfl⟩
  · exact ⟨'h', _, Scheme.text_eq .http, rfl, rfl⟩
  · exact ⟨'h', _, Scheme.text_eq .https, rfl, rfl⟩

theorem shown_clean : '/' ∉ endpoint.shown := by
  intro member
  simp only [shown, List.mem_append] at member
  rcases member with ((outer | inner) | outer) | port
  · unfold opening at outer
    split at outer <;> simp at outer
  · exact (endpoint.name '/' inner).1 rfl
  · unfold closing at outer
    split at outer <;> simp at outer
  · unfold portText at port
    cases known : endpoint.port with
    | none => simp [known] at port
    | some digits =>
      rw [known] at port
      rcases List.mem_cons.mp port with same | inside
      · cases same
      · exact (isDark_of_digit ((endpoint.digits digits known).2 '/' inside)).2.1 rfl

theorem host_first : ∀ c ∈ endpoint.host.head?, IsDark c :=
  fun c first => (endpoint.name c (List.mem_of_mem_head? first)).2

theorem host_last : ∀ c ∈ endpoint.host.getLast?, IsDark c :=
  fun c last => (endpoint.name c (List.mem_of_mem_getLast? last)).2

theorem solid_ne_nil : endpoint.solid ≠ [] := by
  simp [solid, shown, endpoint.full]

theorem solid_first : ∀ c ∈ endpoint.solid.head?, IsDark c := by
  intro c first
  cases scheme : endpoint.scheme with
  | none =>
    have bare : endpoint.solid = endpoint.host ++ (endpoint.closing ++ endpoint.portText ++
        if endpoint.path.isEmpty then [] else ['/']) := by
      simp [solid, shown, opening, scheme]
    rw [bare, List.head?_append_of_ne_nil _ endpoint.full] at first
    exact endpoint.host_first c first
  | some known =>
    obtain ⟨d, rest, text, dark⟩ := isDark_letters known
    simp only [solid, scheme, Option.elim_some, text, List.cons_append, List.head?_cons, Option.mem_def,
      Option.some.injEq] at first
    exact first ▸ dark

theorem solid_last : ∀ c ∈ endpoint.solid.getLast?, IsDark c := by
  intro c last
  cases pathless : endpoint.path.isEmpty with
  | false =>
    have slash : endpoint.solid.getLast? = some '/' := by simp [solid, pathless]
    obtain rfl : '/' = c := Option.some.inj (slash ▸ last)
    exact ⟨rfl, rfl⟩
  | true =>
    cases port : endpoint.port with
    | none =>
      have bare : endpoint.solid = endpoint.scheme.elim [] Scheme.text ++ endpoint.opening ++ endpoint.host := by
        simp [solid, shown, closing, portText, port, pathless]
      rw [bare, List.getLast?_append_of_ne_nil _ endpoint.full] at last
      exact endpoint.host_last c last
    | some digits =>
      obtain ⟨full, all⟩ := endpoint.digits digits port
      have ends : endpoint.solid = endpoint.scheme.elim [] Scheme.text ++ (endpoint.opening ++ endpoint.host ++
          endpoint.closing ++ [':']) ++ digits := by
        simp [solid, shown, portText, port, pathless]
      rw [ends, List.getLast?_append_of_ne_nil _ full] at last
      exact (isDark_of_digit (all c (List.mem_of_mem_getLast? last))).1

theorem solid_solid : Solid endpoint.solid := ⟨endpoint.solid_ne_nil, endpoint.solid_first, endpoint.solid_last⟩

/-- Without a scheme, what is shown is not taken for one. -/
theorem shown_other (none : endpoint.scheme = none) (letters : List Char) (fresh : ':' ∉ letters) :
    endpoint.shown ≠ letters ++ [':'] := by
  intro same
  have bare : endpoint.shown = endpoint.host ++ endpoint.closing ++ endpoint.portText := by
    simp [shown, opening, none]
  have last : (endpoint.host ++ endpoint.closing ++ endpoint.portText).getLast? = some ':' := by
    rw [← bare, same, List.getLast?_concat]
  cases port : endpoint.port with
  | some digits =>
    obtain ⟨full, all⟩ := endpoint.digits digits port
    have digit : digits.getLast? = some ':' := by
      rw [← last, portText, port, Option.elim_some, List.append_cons,
        List.getLast?_append_of_ne_nil _ full]
    exact (isDark_of_digit (all ':' (List.mem_of_getLast? digit))).2.2 rfl
  | none =>
    have colons := endpoint.colons
    have single : (endpoint.host ++ endpoint.closing).count ':' = 1 := by
      have counted := congrArg (List.count ':') (bare.symm.trans same)
      simpa [portText, port, List.count_eq_zero.mpr fresh] using counted
    have brackets : endpoint.closing.count ':' = 0 := by
      unfold closing
      split <;> simp
    rw [List.count_append, brackets] at single
    split at colons
    · omega
    · rw [List.count_eq_zero.mpr colons] at single
      omega

/-- What the host is read from. -/
theorem endpointHost_shown : endpointHost endpoint.text = authorityHost endpoint.shown := by
  obtain ⟨rest, trimmed, dropped⟩ :=
    trimEndpointToken_solid endpoint.lead_quotes endpoint.solid_solid endpoint.trail
  have full : endpoint.solid ++ rest ≠ [] := List.append_ne_nil_of_left_ne_nil endpoint.solid_ne_nil rest
  have behind : ∃ slash, (slash = [] ∨ ∃ more, slash = '/' :: more) ∧
      endpoint.solid ++ rest = endpoint.scheme.elim [] Scheme.text ++ (endpoint.shown ++ slash) := by
    cases pathless : endpoint.path.isEmpty with
    | false =>
      refine ⟨'/' :: rest, .inr ⟨rest, rfl⟩, ?_⟩
      simp [solid, pathless]
    | true =>
      refine ⟨[], .inl rfl, ?_⟩
      rw [dropped (endpoint.trail_quotes (List.isEmpty_iff.mp pathless))]
      simp [solid, pathless]
  obtain ⟨slash, ends, token⟩ := behind
  have stripped : stripScheme (endpoint.solid ++ rest) = endpoint.shown ++ slash := by
    rw [token]
    cases scheme : endpoint.scheme with
    | some known => exact stripScheme_text known _
    | none =>
      refine stripScheme_other fun other starts => ?_
      obtain ⟨letters, authority, fresh⟩ := authority_of_scheme starts
      rw [Option.elim_none, List.nil_append, takeWhile_authority endpoint.shown_clean ends] at authority
      exact endpoint.shown_other scheme letters fresh authority
  rw [endpointHost, endpoint.text_eq, trimmed, if_neg full, stripped,
    takeWhile_authority endpoint.shown_clean ends]

/-- No bracket is lost, or none is needed. -/
def Readable : Prop :=
  endpoint.bracketed = false ∨ endpoint.scheme.isSome ∨ endpoint.port = none ∧ endpoint.path = []

theorem host_ne_bracket : ∀ c ∈ endpoint.host, c ≠ '[' ∧ c ≠ ']' := by
  intro c member
  have dark := (endpoint.name c member).2.2
  constructor
  · rintro rfl
    cases dark
  · rintro rfl
    cases dark

theorem authorityHost_bare {token : List Char} (full : token ≠ []) (bare : ∀ c ∈ token.head?, c ≠ '[') :
    authorityHost token = some (withoutPort token) := by
  have none : stripPrefix ['['] token = none := by
    cases token with
    | nil => exact absurd rfl full
    | cons c rest => simp [stripPrefix, (bare c rfl).symm]
  simp only [authorityHost, if_neg full, none]

/-- A text with two colons is not a host with a port. -/
theorem authorityHost_colons {token : List Char} (colons : 2 ≤ token.count ':')
    (bare : ∀ c ∈ token.head?, c ≠ '[') : authorityHost token = some token := by
  have full : token ≠ [] := by
    rintro rfl
    cases colons
  rw [authorityHost_bare full bare, withoutPort]
  split
  · rename_i front back found
    rw [if_neg]
    rintro ⟨fresh, digits⟩
    have none : back.count ':' = 0 := by
      refine List.count_eq_zero.mpr fun member => ?_
      exact (isDark_of_digit (List.all_eq_true.mp digits _ member)).2.2 rfl
    rw [rsplitOnce_eq_some found, List.count_append, List.count_cons_self, none,
      List.count_eq_zero.mpr fresh] at colons
    omega
  · rfl

theorem authorityHost_bracket {host rest : List Char} (full : host ≠ []) (clean : ']' ∉ host)
    (ends : rest = [] ∨ ∃ more, rest = ']' :: more) : authorityHost ('[' :: (host ++ rest)) = some host := by
  have inside : (host ++ rest).takeWhile (· ≠ ']') = host := by
    have all : ∀ c ∈ host, decide (c ≠ ']') = true := by
      intro c member
      exact decide_eq_true fun same => clean (same ▸ member)
    rw [List.takeWhile_append_of_pos all]
    rcases ends with rfl | ⟨more, rfl⟩ <;> simp
  have strip : stripPrefix ['['] ('[' :: (host ++ rest)) = some (host ++ rest) := by simp [stripPrefix]
  rw [authorityHost, if_neg (List.cons_ne_nil _ _), strip]
  simp only [inside]
  simp [full]

/-- The host of a name or of an address of the fourth version. -/
theorem authorityHost_name (named : endpoint.bracketed = false) :
    authorityHost endpoint.shown = some endpoint.host := by
  have bare : endpoint.shown = endpoint.host ++ endpoint.portText := by
    simp [shown, opening, closing, named]
  have fresh : ':' ∉ endpoint.host := by simpa [named] using endpoint.colons
  rw [bare, authorityHost_bare]
  · cases port : endpoint.port with
    | none => simp [portText, port, withoutPort, rsplitOnce_eq_none fresh]
    | some digits =>
      have all := (endpoint.digits digits port).2
      have clean : ':' ∉ digits := fun member => (isDark_of_digit (all ':' member)).2.2 rfl
      simp only [portText, port, Option.elim_some, withoutPort, rsplitOnce_append endpoint.host clean]
      rw [if_pos ⟨fresh, List.all_eq_true.mpr all⟩]
  · simp [endpoint.full]
  · intro c first
    rw [List.head?_append_of_ne_nil _ endpoint.full] at first
    exact (endpoint.host_ne_bracket c (List.mem_of_mem_head? first)).1

/-- The host of an address whose bracket is protected by a scheme. -/
theorem authorityHost_protected (bracketed : endpoint.bracketed = true) (scheme : endpoint.scheme.isSome) :
    authorityHost endpoint.shown = some endpoint.host := by
  have bare : endpoint.shown = '[' :: (endpoint.host ++ (endpoint.closing ++ endpoint.portText)) := by
    simp [shown, opening, bracketed, scheme]
  rw [bare]
  refine authorityHost_bracket endpoint.full (fun member => (endpoint.host_ne_bracket _ member).2 rfl) ?_
  cases port : endpoint.port with
  | some digits =>
    refine .inr ⟨endpoint.portText, ?_⟩
    simp [closing, bracketed, port]
  | none =>
    cases pathless : endpoint.path.isEmpty with
    | true => simp [closing, portText, port, pathless]
    | false =>
      refine .inr ⟨[], ?_⟩
      simp [closing, portText, bracketed, port, pathless]

/-- An address has colons in front of its last one. -/
theorem authorityHost_address (bracketed : endpoint.bracketed = true) (scheme : endpoint.scheme = none)
    (alone : endpoint.port = none ∧ endpoint.path = []) : authorityHost endpoint.shown = some endpoint.host := by
  have bare : endpoint.shown = endpoint.host := by
    simp [shown, opening, closing, portText, scheme, alone.1, alone.2]
  have colons : 2 ≤ endpoint.host.count ':' := by simpa [bracketed] using endpoint.colons
  rw [bare]
  exact authorityHost_colons colons fun c first =>
    (endpoint.host_ne_bracket c (List.mem_of_mem_head? first)).1

/-- Otherwise the closing bracket and what follows it are taken for a part of the host. -/
theorem authorityHost_lost (lost : ¬ endpoint.Readable) :
    authorityHost endpoint.shown = some (endpoint.host ++ ']' :: endpoint.portText) := by
  obtain ⟨bracketed, scheme, followed⟩ : endpoint.bracketed = true ∧ endpoint.scheme = none ∧
      ¬ (endpoint.port = none ∧ endpoint.path = []) := by
    simpa [Readable] using lost
  have bare : endpoint.shown = endpoint.host ++ ']' :: endpoint.portText := by
    have behind : endpoint.port.isSome = true ∨ endpoint.path ≠ [] := by
      cases port : endpoint.port with
      | none => exact .inr fun pathless => followed ⟨port, pathless⟩
      | some digits => exact .inl rfl
    have left : endpoint.closing = [']'] := by
      rcases behind with port | path
      · simp [closing, bracketed, port]
      · simp [closing, bracketed, path]
    simp [shown, opening, scheme, left]
  have colons : 2 ≤ endpoint.host.count ':' := by simpa [bracketed] using endpoint.colons
  rw [bare]
  refine authorityHost_colons ?_ fun c first => ?_
  · rw [List.count_append]
    omega
  · rw [List.head?_append_of_ne_nil _ endpoint.full] at first
    exact (endpoint.host_ne_bracket c (List.mem_of_mem_head? first)).1

/-- What is read instead of an address whose bracket is lost names no machine. -/
theorem lost_undetected (lost : ¬ endpoint.Readable) (hosts : Finset (List Char)) :
    collectHostToken endpoint.text hosts = hosts := by
  have read : endpointHost endpoint.text = some (endpoint.host ++ ']' :: endpoint.portText) :=
    endpoint.endpointHost_shown.trans (endpoint.authorityHost_lost lost)
  have dark : ∀ c ∈ endpoint.host ++ ']' :: endpoint.portText, isWhiteSpace c = false := by
    intro c member
    rcases List.mem_append.mp member with inside | behind
    · exact (endpoint.name c inside).2.1
    · rcases List.mem_cons.mp behind with rfl | port
      · rfl
      · unfold portText at port
        cases known : endpoint.port with
        | none => simp [known] at port
        | some digits =>
          rw [known] at port
          rcases List.mem_cons.mp port with rfl | digit
          · rfl
          · exact isWhiteSpace_of_isDigit ((endpoint.digits digits known).2 c digit)
  have foreign : isDetectableHost (endpoint.host ++ ']' :: endpoint.portText) = false := by
    have bracket : isExplicitHost (endpoint.host ++ ']' :: endpoint.portText) = false := by
      rw [isExplicitHost, Bool.and_eq_false_iff]
      refine .inr (List.all_eq_false.mpr ⟨']', by simp, by decide⟩)
    simp only [isDetectableHost, trim_dark dark, bracket, Bool.false_and]
  simp only [collectHostToken, read, foreign, Bool.false_eq_true, if_false]

end Endpoint

/-- The host of an endpoint is read, unless it is an address in brackets that something follows and that no
scheme protects. -/
theorem endpointHost_text_iff (endpoint : Endpoint) : endpointHost endpoint.text = some endpoint.host ↔
    endpoint.bracketed = false ∨ endpoint.scheme.isSome ∨ endpoint.port = none ∧ endpoint.path = [] := by
  rw [endpoint.endpointHost_shown]
  constructor
  · intro found
    by_contra lost
    rw [endpoint.authorityHost_lost lost, Option.some.injEq] at found
    simp at found
  · intro readable
    cases bracketed : endpoint.bracketed with
    | false => exact endpoint.authorityHost_name bracketed
    | true =>
      cases scheme : endpoint.scheme with
      | some known => exact endpoint.authorityHost_protected bracketed (by rw [scheme]; rfl)
      | none =>
        refine endpoint.authorityHost_address bracketed scheme ?_
        simpa [bracketed, scheme] using readable

def loopbackEndpoint : Endpoint where
  front := []
  scheme := none
  host := [':', ':', '1']
  bracketed := true
  port := some ['8', '0', '8', '0']
  path := []
  back := []
  quotes := nofun
  full := List.cons_ne_nil _ _
  name := by simp [IsDark, isWhiteSpace, isEndpointQuote]
  colons := by simp
  digits := by simp
  slash := .inl rfl

/-- The port of an address is taken for a part of it. -/
theorem endpointHost_bracket_lost : loopbackEndpoint.text = "[::1]:8080".toList ∧
    endpointHost loopbackEndpoint.text = some "::1]:8080".toList ∧
    endpointHost loopbackEndpoint.text ≠ some loopbackEndpoint.host := by
  decide

end CueShell.HostDiscovery
