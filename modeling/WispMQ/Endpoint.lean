import WispMQ.CredentialFile
/-!
# The address of a remote broker

| here | there |
| --- | --- |
| `Transport`, `Endpoint` | bridge.rs:276-290 |
| `Endpoint.parse`        | `Endpoint::parse` (bridge.rs:299) |
| `Endpoint.isTls`        | `is_tls` (bridge.rs:295) |
| `splitOnceText`, `rsplitOnce` | `str::split_once` at a text, `str::rsplit_once` at a character |

What is accepted is `scheme://host[:port][/path]` (`parse_of_spells`, `spells_of_parse`). The URL for the WebSocket handshake
is such an address again, with the port and the path written out, and it is one of the same endpoint
(`endpoint_canonical`).
-/

namespace WispMQ.Configuration

inductive Transport where
  | tcp
  | tls
  | ws
  | wss
deriving DecidableEq

def Transport.isWs : Transport → Bool
  | ws | wss => true
  | tcp | tls => false

def Transport.scheme : Transport → String
  | tcp => "tcp"
  | tls => "tls"
  | ws => "ws"
  | wss => "wss"

structure Endpoint where
  transport : Transport
  host : String
  port : Nat
  /-- For the WebSocket handshake. -/
  wsUrl : Option String
deriving DecidableEq

inductive AddressError where
  | noScheme (address : String)
  | unknownScheme (scheme : String)
  | invalidPort (port : String)
  | emptyHost
deriving DecidableEq

/-! ## Splitting -/

/-- `split_once`, at a text. -/
def splitOnceText (sep : List Char) : List Char → Option (List Char × List Char)
  | [] => if sep = [] then some ([], []) else none
  | c :: cs =>
    if sep.isPrefixOf (c :: cs) then some ([], (c :: cs).drop sep.length)
    else (splitOnceText sep cs).map fun r => (c :: r.1, r.2)

/-- `rsplit_once`, at a character. -/
def rsplitOnce (c : Char) (s : List Char) : Option (List Char × List Char) :=
  match s.reverse.span (· ≠ c) with
  | (after, _ :: before) => some (before.reverse, after.reverse)
  | (_, []) => none

theorem splitOnceText_some {sep : List Char} : ∀ {s before after : List Char}, splitOnceText sep s = some (before, after) →
    s = before ++ sep ++ after
  | [], before, after, h => by
    rw [splitOnceText] at h
    split at h
    · cases h
      simp [*]
    · cases h
  | c :: cs, before, after, h => by
    rw [splitOnceText] at h
    split at h
    · rename_i hp
      cases h
      obtain ⟨rest, hrest⟩ := List.isPrefixOf_iff_prefix.1 hp
      rw [← hrest, List.drop_left, List.nil_append]
    · obtain ⟨r, hr, heq⟩ := Option.map_eq_some_iff.1 h
      cases heq
      rw [splitOnceText_some hr]
      rfl

/-- Before the first character of the separator there is none of it. -/
theorem splitOnceText_append {c : Char} {sep : List Char} : ∀ {before : List Char} (after : List Char), c ∉ before →
    splitOnceText (c :: sep) (before ++ (c :: sep) ++ after) = some (before, after)
  | [], after, _ => by
    have hp : (c :: sep).isPrefixOf (c :: (sep ++ after)) = true := List.isPrefixOf_iff_prefix.2 ⟨after, rfl⟩
    rw [List.nil_append, List.cons_append, splitOnceText, if_pos hp, ← List.cons_append, List.drop_left]
  | x :: before, after, h => by
    obtain ⟨hx, hbefore⟩ := not_or.1 (mt List.mem_cons.2 h)
    have hp : (c :: sep).isPrefixOf (x :: (before ++ (c :: sep) ++ after)) = false := by
      rw [List.isPrefixOf, beq_eq_false_iff_ne.2 hx, Bool.false_and]
    rw [List.cons_append, List.cons_append, splitOnceText, hp, splitOnceText_append after hbefore]
    rfl

theorem rsplitOnce_none {c : Char} {s : List Char} (h : c ∉ s) : rsplitOnce c s = none := by
  have hall : ∀ x ∈ s.reverse, decide (x ≠ c) = true := by
    intro x hx
    refine decide_eq_true ?_
    rintro rfl
    exact h (List.mem_reverse.1 hx)
  have hdrop : s.reverse.dropWhile (fun x => decide (x ≠ c)) = [] := List.dropWhile_eq_nil_iff.2 hall
  rw [rsplitOnce, List.span_eq_takeWhile_dropWhile, hdrop]

theorem rsplitOnce_append {c : Char} (before : List Char) {after : List Char} (h : c ∉ after) :
    rsplitOnce c (before ++ c :: after) = some (before, after) := by
  have hall : ∀ x ∈ after.reverse, decide (x ≠ c) = true := by
    intro x hx
    refine decide_eq_true ?_
    rintro rfl
    exact h (List.mem_reverse.1 hx)
  have hrev : (before ++ c :: after).reverse = after.reverse ++ c :: before.reverse := by simp
  rw [rsplitOnce, hrev, List.span_eq_takeWhile_dropWhile, List.takeWhile_append_of_pos hall, List.dropWhile_append_of_pos hall,
    List.takeWhile_cons_of_neg (by simp), List.dropWhile_cons_of_neg (by simp)]
  simp

theorem rsplitOnce_some {c : Char} {s before after : List Char} (h : rsplitOnce c s = some (before, after)) :
    s = before ++ c :: after ∧ c ∉ after := by
  by_cases hmem : c ∈ s
  · obtain ⟨back, front, hs, hback⟩ := List.eq_append_cons_of_mem (List.mem_reverse.2 hmem)
    have hs : s = front.reverse ++ c :: back.reverse := by
      rw [← s.reverse_reverse, hs]
      simp
    have hback : c ∉ back.reverse := fun hc => hback (List.mem_reverse.1 hc)
    subst hs
    rw [rsplitOnce_append _ hback] at h
    cases h
    exact ⟨rfl, hback⟩
  · rw [rsplitOnce_none hmem] at h
    cases h

/-! ## Addresses -/

namespace Endpoint

/-- What a scheme stands for, and its port. -/
def ofScheme (scheme : String) : Option (Transport × Nat) :=
  match toAsciiLowercase scheme with
  | "tcp" | "mqtt" => some (.tcp, 1883)
  | "tls" | "mqtts" | "ssl" => some (.tls, 8883)
  | "ws" => some (.ws, 8080)
  | "wss" => some (.wss, 8443)
  | _ => none

def isTls (e : Endpoint) : Bool := e.transport = .tls || e.transport = .wss

/-- The end of `parse`, from the host and the port on. -/
def build (transport : Transport) (scheme : String) (host : List Char) (port : Nat) (path : List Char) :
    Except AddressError Endpoint :=
  if host = [] then .error .emptyHost
  else
    let path := if path = [] then "/mqtt".toList else path
    let url := s!"{scheme}://{String.ofList host}:{port}{String.ofList path}"
    .ok ⟨transport, String.ofList host, port, if transport.isWs then some url else none⟩

def parse (address : String) : Except AddressError Endpoint :=
  match splitOnceText "://".toList address.toList with
  | none => .error (.noScheme address)
  | some (scheme, rest) =>
    match ofScheme (String.ofList scheme) with
    | none => .error (.unknownScheme (toAsciiLowercase (String.ofList scheme)))
    | some (transport, defaultPort) =>
      let hostport := rest.takeWhile (· ≠ '/')
      let path := rest.dropWhile (· ≠ '/')
      match rsplitOnce ':' hostport with
      | none => build transport (String.ofList scheme) hostport defaultPort path
      | some (host, p) =>
        match parseUInt 16 (String.ofList p) with
        | none => .error (.invalidPort (String.ofList p))
        | some port => build transport (String.ofList scheme) host port path

/-! ## What is accepted -/

/-- `scheme://host[:port][/path]`; the colon before the port is the last one. -/
structure Spells (address : String) (scheme host : List Char) (port : Option (List Char)) (path : List Char) : Prop where
  text : address.toList = scheme ++ "://".toList ++ ((host ++ port.elim [] (':' :: ·)) ++ path)
  noColon : ':' ∉ scheme
  noSlash : '/' ∉ host
  plain : ∀ p, port = some p → '/' ∉ p ∧ ':' ∉ p
  bare : port = none → ':' ∉ host
  slashed : ∀ c rest, path = c :: rest → c = '/'

/-- The number of the port. -/
def portOf (defaultPort : Nat) : Option (List Char) → Option Nat
  | none => some defaultPort
  | some p => parseUInt 16 (String.ofList p)

theorem parseUInt_lt {bits n : Nat} {s : String} (h : parseUInt bits s = some n) : n < 2 ^ bits := by
  unfold parseUInt at h
  extract_lets digits value at h
  split at h
  · cases h
  · split at h
    · rename_i hlt
      rwa [← Option.some.inj h]
    · cases h

theorem parseUInt_toString {bits n : Nat} (h : n < 2 ^ bits) : parseUInt bits (toString n) = some n := by
  have hdigits : ∀ c ∈ Nat.toDigits 10 n, c.isDigit = true := fun c hc =>
    Nat.isDigit_of_mem_toDigits (by omega) (by omega) hc
  unfold parseUInt
  extract_lets digits value
  have hd : digits = Nat.toDigits 10 n := by
    simp only [digits, Nat.toString_eq_ofList_toDigits, String.toList_ofList]
    split
    · -- a digit is no plus sign
      rename_i ds heq
      have := hdigits '+' (by rw [heq]; exact List.mem_cons_self ..)
      cases this
    · rfl
  have hempty : (Nat.toDigits 10 n).isEmpty = false := List.isEmpty_eq_false_iff.2 Nat.toDigits_ne_nil
  have hall : (Nat.toDigits 10 n).all Char.isDigit = true := List.all_eq_true.2 hdigits
  have hvalue : value = n := by simp only [value, hd, Nat.ofDigitChars_ten_toDigits]
  simp only [hd, hempty, hall, Bool.not_true, Bool.or_self, Bool.false_eq_true, if_false, hvalue, h, if_true]

/-- The schemes, and the port of each. -/
theorem ofScheme_some {scheme : String} {t : Transport} {d : Nat} (h : ofScheme scheme = some (t, d)) :
    ':' ∉ scheme.toList ∧ d < 2 ^ 16 := by
  have hcolon : ∀ known : String, toAsciiLowercase scheme = known → ':' ∉ known.toList → ':' ∉ scheme.toList := by
    rintro known hlower hknown hmem
    refine hknown ?_
    rw [← hlower, toAsciiLowercase, String.toList_ofList]
    exact List.mem_map.2 ⟨':', hmem, rfl⟩
  unfold ofScheme at h
  split at h
  all_goals first
    | cases h; exact ⟨hcolon _ ‹_› (by decide), by decide⟩
    | cases h

theorem span_path {hostport path : List Char} (hhost : '/' ∉ hostport) (hpath : ∀ c rest, path = c :: rest → c = '/') :
    (hostport ++ path).takeWhile (· ≠ '/') = hostport ∧ (hostport ++ path).dropWhile (· ≠ '/') = path := by
  have hall : ∀ c ∈ hostport, decide (c ≠ '/') = true := by
    intro c hc
    refine decide_eq_true ?_
    rintro rfl
    exact hhost hc
  rw [List.takeWhile_append_of_pos hall, List.dropWhile_append_of_pos hall]
  cases path with
  | nil => simp
  | cons c rest =>
    rw [hpath c rest rfl, List.takeWhile_cons_of_neg (by simp), List.dropWhile_cons_of_neg (by simp), List.append_nil]
    exact ⟨rfl, rfl⟩

theorem parse_of_spells {address : String} {scheme host path : List Char} {port : Option (List Char)} {t : Transport} {d n : Nat}
    (h : Spells address scheme host port path) (hscheme : ofScheme (String.ofList scheme) = some (t, d))
    (hport : portOf d port = some n) : parse address = build t (String.ofList scheme) host n path := by
  have hslash : '/' ∉ host ++ port.elim [] (':' :: ·) := by
    intro hmem
    rcases List.mem_append.1 hmem with hmem | hmem
    · exact h.noSlash hmem
    · cases port with
      | none => cases hmem
      | some p =>
        rcases List.mem_cons.1 hmem with hc | hmem
        · cases hc
        · exact (h.plain p rfl).1 hmem
  obtain ⟨htake, hdrop⟩ := span_path hslash h.slashed
  have hsplit : splitOnceText "://".toList address.toList =
      some (scheme, (host ++ port.elim [] (':' :: ·)) ++ path) := by
    rw [h.text]
    exact splitOnceText_append _ h.noColon
  simp only [Endpoint.parse, hsplit, hscheme, htake, hdrop]
  cases port with
  | none =>
    rw [Option.elim_none, List.append_nil, rsplitOnce_none (h.bare rfl)]
    cases hport
    rfl
  | some p =>
    rw [Option.elim_some, rsplitOnce_append host (h.plain p rfl).2]
    simp only [portOf] at hport
    simp only [hport]

theorem spells_of_parse {address : String} {e : Endpoint} (h : Endpoint.parse address = .ok e) :
    ∃ scheme host port path t d n, Spells address scheme host port path ∧ ofScheme (String.ofList scheme) = some (t, d) ∧
      portOf d port = some n ∧ build t (String.ofList scheme) host n path = .ok e := by
  unfold Endpoint.parse at h
  split at h
  · cases h
  · rename_i scheme rest hsplit
    have htext := splitOnceText_some hsplit
    split at h
    · cases h
    · rename_i t d hscheme
      have hcolon := (ofScheme_some hscheme).1
      rw [String.toList_ofList] at hcolon
      have hrest : rest = rest.takeWhile (· ≠ '/') ++ rest.dropWhile (· ≠ '/') := List.takeWhile_append_dropWhile.symm
      have hslash : '/' ∉ rest.takeWhile (· ≠ '/') := fun hmem => by simpa using List.mem_takeWhile_imp hmem
      have hpath : ∀ c tail, rest.dropWhile (· ≠ '/') = c :: tail → c = '/' := by
        intro c tail heq
        have := List.head?_dropWhile_not (fun x => decide (x ≠ '/')) rest
        rw [heq] at this
        simpa using this
      simp only at h
      generalize rest.takeWhile (· ≠ '/') = hostport at h hrest hslash
      generalize rest.dropWhile (· ≠ '/') = path at h hrest hpath
      subst hrest
      split at h
      · rename_i hnone
        have hport : ':' ∉ hostport := by
          intro hmem
          obtain ⟨back, front, hs, hback⟩ := List.eq_append_cons_of_mem (List.mem_reverse.2 hmem)
          rw [← hostport.reverse_reverse, hs] at hnone
          have hclean : ':' ∉ back.reverse := by simpa using hback
          simp [rsplitOnce_append front.reverse hclean] at hnone
        refine ⟨scheme, hostport, none, path, t, d, d, ⟨?_, hcolon, hslash, by simp, fun _ => hport, hpath⟩, hscheme, rfl, h⟩
        rw [htext, Option.elim_none, List.append_nil]
      · rename_i host p hsome
        obtain ⟨rfl, hp⟩ := rsplitOnce_some hsome
        split at h
        · cases h
        · rename_i n hn
          refine ⟨scheme, host, some p, path, t, d, n,
            ⟨htext, hcolon, fun hmem => hslash (List.mem_append_left _ hmem), ?_, by simp,
            hpath⟩, hscheme, hn, h⟩
          rintro q hq
          cases hq
          exact ⟨fun hmem => hslash (List.mem_append_right _ (List.mem_cons_of_mem _ hmem)), hp⟩

/-! ## The address in full -/

/-- The URL of the handshake, or an address with the port written out. -/
def url (e : Endpoint) : String := e.wsUrl.getD s!"{e.transport.scheme}://{e.host}:{e.port}"

theorem spells_written {scheme host path : List Char} (hscheme : ':' ∉ scheme) (hhost : '/' ∉ host)
    (hpath : ∀ c rest, path = c :: rest → c = '/') (n : Nat) :
    Spells s!"{String.ofList scheme}://{String.ofList host}:{n}{String.ofList path}" scheme host
      (some (Nat.toDigits 10 n)) path := by
  refine ⟨?_, hscheme, hhost, ?_, by simp, hpath⟩
  · simp [toString]
  · rintro p hp
    cases hp
    have hdigits : ∀ c ∈ Nat.toDigits 10 n, c.isDigit = true := fun c hc =>
      Nat.isDigit_of_mem_toDigits (by omega) (by omega) hc
    exact ⟨fun hc => absurd (hdigits '/' hc) (by decide), fun hc => absurd (hdigits ':' hc) (by decide)⟩

theorem portOf_toDigits {n : Nat} (d : Nat) (h : n < 2 ^ 16) : portOf d (some (Nat.toDigits 10 n)) = some n := by
  rw [portOf, ← Nat.toString_eq_ofList_toDigits]
  exact parseUInt_toString h

theorem build_ok {t : Transport} {scheme : String} {host path : List Char} {n : Nat} {e : Endpoint}
    (h : build t scheme host n path = .ok e) : host ≠ [] ∧
      e = ⟨t, String.ofList host, n, if t.isWs then
        let full := if path = [] then "/mqtt".toList else path
        some s!"{scheme}://{String.ofList host}:{n}{String.ofList full}" else none⟩ := by
  unfold build at h
  split at h
  · cases h
  · rename_i hne
    cases h
    exact ⟨hne, rfl⟩

theorem ofScheme_scheme (t : Transport) : ∃ d, ofScheme t.scheme = some (t, d) := by
  cases t with
  | tcp => exact ⟨1883, by decide⟩
  | tls => exact ⟨8883, by decide⟩
  | ws => exact ⟨8080, by decide⟩
  | wss => exact ⟨8443, by decide⟩

/-- **An address in full**: what is accepted names a host and a port, it has a URL for the handshake exactly when there is one,
and this URL, or the address in full, is accepted again, as the same endpoint. -/
theorem endpoint_canonical (address : String) (e : Endpoint) (h : parse address = .ok e) :
    (e.host ≠ "" ∧ '/' ∉ e.host.toList ∧ e.port < 2 ^ 16) ∧ e.wsUrl.isSome = e.transport.isWs ∧ parse e.url = .ok e := by
  obtain ⟨scheme, host, port, path, t, d, n, hspells, hscheme, hport, hbuild⟩ := spells_of_parse h
  obtain ⟨hne, rfl⟩ := build_ok hbuild
  have hn : n < 2 ^ 16 := by
    cases port with
    | none =>
      cases hport
      exact (ofScheme_some hscheme).2
    | some p => exact parseUInt_lt hport
  refine ⟨⟨?_, ?_, hn⟩, ?_, ?_⟩
  · rwa [Ne, ← String.toList_inj, String.toList_ofList]
  · rw [String.toList_ofList]
    exact hspells.noSlash
  · cases t.isWs <;> rfl
  · cases hws : t.isWs with
    | true =>
      have hfull : ∀ c rest, (if path = [] then "/mqtt".toList else path) = c :: rest → c = '/' := by
        intro c rest hc
        split at hc
        · cases hc
          rfl
        · exact hspells.slashed c rest hc
      have hwritten := spells_written hspells.noColon hspells.noSlash hfull n
      have hagain := parse_of_spells hwritten hscheme (portOf_toDigits d hn)
      simp only [url, if_true, Option.getD_some]
      rw [hagain, build, if_neg hne]
      by_cases hpath : path = []
      · simp [hpath, hws]
      · simp [hpath, hws]
    | false =>
      obtain ⟨d', hd'⟩ := ofScheme_scheme t
      have hnil : ∀ (c : Char) (rest : List Char), [] = c :: rest → c = '/' := by simp
      have hwritten := spells_written (ofScheme_some hd').1 hspells.noSlash hnil n
      rw [String.ofList_toList, show String.ofList [] = "" from rfl] at hwritten
      have hagain := parse_of_spells hwritten (by rwa [String.ofList_toList]) (portOf_toDigits d' hn)
      simp only [url, Bool.false_eq_true, if_false, Option.getD_none]
      rw [build, if_neg hne] at hagain
      simpa [toString, hws] using hagain

theorem endpoint_canonical_port : parse "WS://broker:80/mqtt" = .ok ⟨.ws, "broker", 80, some "WS://broker:80/mqtt"⟩ :=
  (endpoint_canonical "WS://broker:+080" ⟨.ws, "broker", 80, some "WS://broker:80/mqtt"⟩ (by decide +kernel)).2.2

end Endpoint

end WispMQ.Configuration
