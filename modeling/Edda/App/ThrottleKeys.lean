import Edda.Support.RustText

/-!
# The keys of the throttles

The rate limiter counts a request for the address of its peer. Only where the peer is a trusted
proxy does it look at what the headers say about the client, and there the address that is named
first counts: the first hop of `Forwarded`, the left-most entry of `X-Forwarded-For`, or
`X-Real-IP`. Proxies append to `X-Forwarded-For`, so that an entry which the client has written
itself stands in front of theirs.

`rate_limit_key` says what the key is. `client_chooses_its_keys` shows headers that the client
writes for both throttles.
-/

set_option autoImplicit false

namespace Edda.App.ThrottleKeys

open Edda.Support.RustText

/-! ## Addresses -/

/-- `IpAddr`. -/
inductive IpAddr where
  | v4 (bits : BitVec 32)
  | v6 (bits : BitVec 128)
  deriving DecidableEq, Repr

/-- A network: an address with the length of its network part. -/
inductive IpNet where
  | v4 (bits : BitVec 32) (length : Nat)
  | v6 (bits : BitVec 128) (length : Nat)
  deriving DecidableEq, Repr

def IpNet.contains : IpNet → IpAddr → Bool
  | .v4 net length, .v4 bits => net >>> (32 - length) = bits >>> (32 - length)
  | .v6 net length, .v6 bits => net >>> (128 - length) = bits >>> (128 - length)
  | _, _ => false

def isDigitOf (radix : Nat) (c : Char) : Bool :=
  ('0' ≤ c && c ≤ '9') || (radix = 16 && (('a' ≤ c && c ≤ 'f') || ('A' ≤ c && c ≤ 'F')))

def digitValue (c : Char) : Nat :=
  if c ≤ '9' then c.toNat - 48 else if c ≤ 'F' then c.toNat - 55 else c.toNat - 87

/-- `read_number`: a number below `limit`, of `maxDigits` digits at most. -/
def readNumber (radix maxDigits limit : Nat) (allowZeroPrefix : Bool) (text : List Char) :
    Option (Nat × List Char) :=
  let digits := text.takeWhile (isDigitOf radix)
  let value := digits.foldl (fun acc c => acc * radix + digitValue c) 0
  if digits = [] ∨ maxDigits < digits.length ∨ limit ≤ value ∨
      (allowZeroPrefix = false ∧ digits.head? = some '0' ∧ 1 < digits.length) then none
  else some (value, text.dropWhile (isDigitOf radix))

def readChar (c : Char) (text : List Char) : Option (List Char) :=
  if text.head? = some c then some text.tail else none

/-- `read_ipv4_addr`. -/
def readIpv4 (text : List Char) : Option (Nat × List Char) := do
  let (a, text) ← readNumber 10 3 256 false text
  let text ← readChar '.' text
  let (b, text) ← readNumber 10 3 256 false text
  let text ← readChar '.' text
  let (c, text) ← readNumber 10 3 256 false text
  let text ← readChar '.' text
  let (d, text) ← readNumber 10 3 256 false text
  some (((a * 256 + b) * 256 + c) * 256 + d, text)

/-- `read_groups`: as many groups as there are, up to `limit`, whether they end in an IPv4 address,
and what is left. Every group but the first has a colon in front. -/
def readGroups : Nat → Bool → List Char → List Nat × Bool × List Char
  | 0, _, text => ([], false, text)
  | limit + 1, first, text =>
    let start := if first then some text else readChar ':' text
    match if 0 < limit then start.bind readIpv4 else none with
    | some (bits, rest) => ([bits / 65536, bits % 65536], true, rest)
    | none => match start.bind (readNumber 16 4 65536 true) with
      | some (group, rest) =>
        let (groups, ipv4, rest) := readGroups limit false rest
        (group :: groups, ipv4, rest)
      | none => ([], false, text)

/-- `read_ipv6_addr`. -/
def readIpv6 (text : List Char) : Option (BitVec 128 × List Char) :=
  let bits := fun groups : List Nat =>
    BitVec.ofNat 128 (groups.foldl (fun acc group => acc * 65536 + group) 0)
  let (head, ipv4, rest) := readGroups 8 true text
  if head.length = 8 then some (bits head, rest)
  -- an IPv4 part stands at the end only
  else if ipv4 then none
  else do
    let rest ← readChar ':' rest
    let rest ← readChar ':' rest
    let (tail, _, rest) := readGroups (8 - (head.length + 1)) true rest
    some (bits (head ++ List.replicate (8 - head.length - tail.length) 0 ++ tail), rest)

/-- `str::parse::<IpAddr>`. -/
def parseIp (text : List Char) : Option IpAddr :=
  match readIpv4 text with
  | some (bits, rest) => if rest = [] then some (.v4 (BitVec.ofNat 32 bits)) else none
  | none => match readIpv6 text with
    | some (bits, rest) => if rest = [] then some (.v6 bits) else none
    | none => none

example : parseIp "192.0.2.60".toList = some (.v4 0xC000023C) ∧
    parseIp "2001:db8::1".toList = some (.v6 0x20010DB8000000000000000000000001) ∧
    parseIp "::ffff:192.0.2.60".toList = some (.v6 0xFFFFC000023C) ∧
    parseIp "192.0.2.060".toList = none := by decide +kernel

/-! ## Headers -/

/-- The first value of each of the three headers. -/
structure Headers where
  forwarded : Option Bytes
  xForwardedFor : Option Bytes
  xRealIp : Option Bytes

/-- `HeaderValue::to_str`: the text, if it is visible ASCII. -/
def toStr (value : Bytes) : Option (List Char) :=
  if value.all fun byte => (32 ≤ byte && byte < 127) || byte = 9 then
    some (value.map fun byte => Char.ofNat byte.toNat)
  else none

def asciiLower (c : Char) : Char := if 'A' ≤ c ∧ c ≤ 'Z' then Char.ofNat (c.toNat + 32) else c

/-- `trim_matches`. -/
def trimMatches (c : Char) (text : List Char) : List Char :=
  ((text.dropWhile (· = c)).reverse.dropWhile (· = c)).reverse

/-- The text before the last `sep`, and the text after it (`str::rsplit_once`). -/
def rsplitOnce (sep : Char) (text : List Char) : Option (List Char × List Char) :=
  (splitOnce sep text.reverse).map fun (after, before) => (before.reverse, after.reverse)

/-- The host of a `for=` identifier, which may be in brackets, or have a port. -/
def forwardedHost (val : List Char) : List Char :=
  match stripPrefix ['['] val with
  | some rest => match splitOnce ']' rest with
    | some (inner, _) => inner
    | none => rest
  | none => match rsplitOnce ':' val with
    -- several colons are a bare IPv6 address
    | some (h, port) => if ':' ∉ h ∧ port.all (isDigitOf 10) then h else val
    | none => val

/-- The first `for` among the pairs of a hop. -/
def forwardedFor : List (List Char) → Option IpAddr
  | [] => none
  | pair :: pairs => match splitOnce '=' pair with
    | none => none
    | some (key, val) =>
      if (trim key).map asciiLower = "for".toList then
        parseIp (forwardedHost (trimMatches '"' (trim val)))
      else forwardedFor pairs

def firstForwardedFor (value : List Char) : Option IpAddr :=
  forwardedFor ((beforeFirst ',' value).splitOn ';')

/-- The left-most entry of `X-Forwarded-For`. -/
def leftMost (value : List Char) : Option IpAddr := parseIp (trim (beforeFirst ',' value))

/-- The client, as the headers name it first. -/
def clientIp (headers : Headers) : Option IpAddr :=
  match (headers.forwarded.bind toStr).bind firstForwardedFor with
  | some ip => some ip
  | none => match (headers.xForwardedFor.bind toStr).bind leftMost with
    | some ip => some ip
    | none => (headers.xRealIp.bind toStr).bind fun value => parseIp (trim value)

/-! ## The throttles -/

/-- The bucket of the requests without a peer. -/
def anonymousBucket : IpAddr := .v4 0

structure EddaKeyExtractor where
  trustedProxies : List IpNet

def EddaKeyExtractor.trusts (extractor : EddaKeyExtractor) (ip : IpAddr) : Bool :=
  extractor.trustedProxies.any fun net => net.contains ip

/-- The key of the rate limiter. -/
def EddaKeyExtractor.extract (extractor : EddaKeyExtractor) (peer : Option IpAddr)
    (headers : Headers) : IpAddr :=
  match peer with
  | none => anonymousBucket
  | some peer =>
    if extractor.trusts peer then
      match clientIp headers with
      | some ip => ip
      | none => peer
    else peer

/-- The address that the login throttle takes, before it is printed. -/
def loginAddress (headers : Headers) : Option IpAddr := clientIp headers

/-! ## The way of a request -/

/-- An entry that reads as an address. -/
def Reads (entry : Bytes) (ip : IpAddr) : Prop :=
  ∃ text, toStr entry = some text ∧ ',' ∉ text ∧ parseIp (trim text) = some ip

/-- A request of a client that has come through some trusted proxies, the last of which is the peer
of the server. Each one appends the address of its own peer. -/
structure Route (extractor : EddaKeyExtractor) where
  client : IpAddr
  proxies : List IpAddr
  trusted : ∀ proxy ∈ proxies, extractor.trusts proxy = true
  entries : List Bytes
  reads : List.Forall₂ Reads entries (client :: proxies).dropLast

/-- Appends an entry to the header, or starts it. -/
def appendEntry (value : Option Bytes) (entry : Bytes) : Option Bytes :=
  match value with
  | none => some entry
  | some value => some (value ++ (0x2C :: 0x20 :: entry))

section Route

variable {extractor : EddaKeyExtractor} (route : Route extractor)

def Route.peer : IpAddr := route.proxies.getLastD route.client

/-- The headers of the client, after the proxies have appended their entries. -/
def Route.received (written : Headers) : Headers :=
  { written with xForwardedFor := route.entries.foldl appendEntry written.xForwardedFor }

/-- The key of a request with these headers of the client. -/
def Route.key (written : Headers) : IpAddr :=
  extractor.extract (some route.peer) (route.received written)

/-- The right-most address of the chain that is no trusted proxy. -/
def Route.rightMost : Option IpAddr :=
  (route.client :: route.proxies).reverse.find? fun ip => !extractor.trusts ip

end Route

/-! ## What the proxies append -/

theorem toStr_append {front back : Bytes} {text rest : List Char} (hfront : toStr front = some text)
    (hback : toStr back = some rest) : toStr (front ++ back) = some (text ++ rest) := by
  simp only [toStr] at hfront hback ⊢
  split at hfront
  · rename_i hvisible
    split at hback
    · rename_i hvisibleBack
      rw [List.all_append, hvisible, hvisibleBack, List.map_append, Option.some.inj hfront,
        Option.some.inj hback]
      rfl
    · exact absurd hback (by simp)
  · exact absurd hfront (by simp)

/-- The header starts with what was there first, up to the first comma behind it. -/
theorem exists_foldl_appendEntry {entries : List Bytes} {value : Bytes} {text : List Char}
    (hvalue : toStr value = some text)
    (hentries : ∀ entry ∈ entries, ∃ text, toStr entry = some text) :
    ∃ rest, (entries.foldl appendEntry (some value)).bind toStr = some (text ++ rest) ∧
      (rest = [] ∨ rest.head? = some ',') := by
  induction entries generalizing value text with
  | nil => exact ⟨[], by rw [List.append_nil]; exact hvalue, .inl rfl⟩
  | cons entry entries ih =>
    obtain ⟨appended, happended⟩ := hentries entry List.mem_cons_self
    have hseparator : toStr [0x2C, 0x20] = some [',', ' '] := by decide
    have hcomma : toStr (0x2C :: 0x20 :: entry) = some (',' :: ' ' :: appended) :=
      toStr_append hseparator happended
    obtain ⟨rest, hrest, -⟩ := ih (toStr_append hvalue hcomma)
      fun other hother => hentries other (List.mem_cons_of_mem _ hother)
    refine ⟨',' :: ' ' :: appended ++ rest, ?_, .inr rfl⟩
    rw [← List.append_assoc]
    exact hrest

theorem beforeFirst_append {sep : Char} {text rest : List Char}
    (hrest : rest = [] ∨ rest.head? = some sep) :
    beforeFirst sep (text ++ rest) = beforeFirst sep text := by
  simp only [beforeFirst]
  induction text with
  | nil =>
    cases rest with
    | nil => rfl
    | cons c rest =>
      obtain rfl : c = sep := by simpa using hrest
      simp
  | cons c text ih =>
    rw [List.cons_append, List.takeWhile_cons, List.takeWhile_cons, ih]

theorem exists_toStr {entries : List Bytes} {ips : List IpAddr}
    (h : List.Forall₂ Reads entries ips) : ∀ entry ∈ entries, ∃ text, toStr entry = some text := by
  induction h with
  | nil => exact fun entry hentry => absurd hentry List.not_mem_nil
  | cons hread _ ih =>
    obtain ⟨text, htext, -⟩ := hread
    exact List.forall_mem_cons.2 ⟨⟨text, htext⟩, ih⟩

section Route

variable {extractor : EddaKeyExtractor} {route : Route extractor} {written : Headers} {ip : IpAddr}

/-- What the client has written stays the left-most entry. -/
theorem leftMost_received {value : Bytes} {text : List Char}
    (hwritten : written.xForwardedFor = some value) (htext : toStr value = some text) :
    ((route.received written).xForwardedFor.bind toStr).bind leftMost = leftMost text := by
  obtain ⟨rest, hreceived, hrest⟩ := exists_foldl_appendEntry htext (exists_toStr route.reads)
  simp only [Route.received, hwritten, hreceived, Option.bind_some, leftMost,
    beforeFirst_append hrest]

/-- Otherwise it is the entry of the first proxy, which is the client. -/
theorem leftMost_received_of_none (hproxies : route.proxies ≠ [])
    (hwritten : written.xForwardedFor = none) :
    ((route.received written).xForwardedFor.bind toStr).bind leftMost = some route.client := by
  have hreads := route.reads
  obtain ⟨proxy, proxies, hcons⟩ := List.exists_cons_of_ne_nil hproxies
  rw [hcons, List.dropLast_cons_cons] at hreads
  obtain ⟨entry, entries, ⟨text, htext, hcomma, hparse⟩, hrest, hentries⟩ :=
    List.forall₂_cons_right_iff.1 hreads
  obtain ⟨rest, hreceived, hstart⟩ := exists_foldl_appendEntry htext (exists_toStr hrest)
  have hfirst : beforeFirst ',' text = text := by
    rw [beforeFirst, List.takeWhile_eq_self_iff]
    intro c hc
    simpa using fun heq : c = ',' => hcomma (heq ▸ hc)
  simp only [Route.received, hwritten, hentries, List.foldl_cons, appendEntry, hreceived,
    Option.bind_some, leftMost, beforeFirst_append hstart, hfirst, hparse]

theorem trusts_peer (hproxies : route.proxies ≠ []) : extractor.trusts route.peer = true := by
  apply route.trusted
  rw [Route.peer, List.getLastD_eq_getLast?, List.getLast?_eq_getLast_of_ne_nil hproxies]
  exact List.getLast_mem hproxies

/-- The proxies are trusted, so that the client is the only address of the chain that may not be. -/
theorem rightMost_eq_some (h : route.rightMost = some ip) : ip = route.client := by
  have hmem := List.mem_reverse.1 (List.mem_of_find?_eq_some h)
  have huntrusted := List.find?_some h
  rcases List.mem_cons.1 hmem with rfl | hproxy
  · rfl
  · rw [route.trusted ip hproxy] at huntrusted
    exact absurd huntrusted (by decide)

theorem key_of_untrusted (huntrusted : extractor.trusts route.peer = false) (written : Headers) :
    route.key written = route.peer := by
  simp only [Route.key, EddaKeyExtractor.extract, huntrusted, Bool.false_eq_true, if_false]

theorem key_of_clientIp (htrusted : extractor.trusts route.peer = true)
    (hclient : clientIp (route.received written) = some ip) : route.key written = ip := by
  simp only [Route.key, EddaKeyExtractor.extract, htrusted, hclient, if_true]

/-- A client that writes no header of its own is counted for its own address. -/
theorem key_of_silent (route : Route extractor) : route.key ⟨none, none, none⟩ = route.client := by
  by_cases hproxies : route.proxies = []
  · have hentries : route.entries = [] := by
      have hreads := route.reads
      rw [hproxies] at hreads
      exact List.forall₂_nil_right_iff.1 hreads
    have hpeer : route.peer = route.client := by rw [Route.peer, hproxies]; rfl
    simp only [Route.key, EddaKeyExtractor.extract, Route.received, hentries, List.foldl_nil,
      clientIp, Option.bind_none, hpeer]
    split <;> rfl
  · apply key_of_clientIp (trusts_peer hproxies)
    have hleft := @leftMost_received_of_none _ route ⟨none, none, none⟩ hproxies rfl
    simp only [clientIp, hleft]
    rfl

end Route

/-- The headers that the client writes name an address first: in the first hop of `Forwarded`, or,
without that header, in the left-most entry of `X-Forwarded-For`. -/
def NamesFirst (written : Headers) (ip : IpAddr) : Prop :=
  (written.forwarded.bind toStr).bind firstForwardedFor = some ip ∨
    written.forwarded = none ∧ (written.xForwardedFor.bind toStr).bind leftMost = some ip

/-- The key of the rate limiter. A peer that is no trusted proxy is its own key, whatever the
headers say. Behind trusted proxies the address that the client's own headers name first is the key,
and without such headers the right-most address of the chain that is no trusted proxy. -/
theorem rate_limit_key (extractor : EddaKeyExtractor) :
    (∀ (peer : IpAddr) (headers : Headers), extractor.trusts peer = false →
      extractor.extract (some peer) headers = peer) ∧
    (∀ (route : Route extractor) (written : Headers) (ip : IpAddr),
      extractor.trusts route.peer = true → NamesFirst written ip → route.key written = ip) ∧
    ∀ (route : Route extractor) (ip : IpAddr), route.rightMost = some ip →
      route.key ⟨none, none, none⟩ = ip := by
  refine ⟨?_, ?_, ?_⟩
  · intro peer headers huntrusted
    simp only [EddaKeyExtractor.extract, huntrusted, Bool.false_eq_true, if_false]
  · intro route written ip htrusted hnames
    apply key_of_clientIp htrusted
    rcases hnames with hforwarded | ⟨hnone, hleft⟩
    · have hreceived : (route.received written).forwarded = written.forwarded := rfl
      simp only [clientIp, hreceived, hforwarded]
    · obtain ⟨text, htext, hparse⟩ := Option.bind_eq_some_iff.1 hleft
      obtain ⟨value, hvalue, hstr⟩ := Option.bind_eq_some_iff.1 htext
      have hreceived : (route.received written).forwarded = none := hnone
      simp only [clientIp, hreceived, Option.bind_none, leftMost_received hvalue hstr, hparse]
  · intro route ip hright
    rw [rightMost_eq_some hright]
    exact key_of_silent route

/-! ## A client that writes headers -/

/-- The proxies of a private network. -/
def privateProxies : EddaKeyExtractor := ⟨[.v4 0x0A000000 8]⟩

/-- A client behind one of them. -/
def behindProxy : Route privateProxies where
  client := .v4 0xCB007109
  proxies := [.v4 0x0A000001]
  trusted := by decide
  entries := [utf8 "203.0.113.9"]
  reads := .cons ⟨"203.0.113.9".toList, by decide +kernel, by decide +kernel, by decide +kernel⟩ .nil

/-- The client claims to be somebody else, and is counted as that by the rate limiter. The login
throttle believes a client without any proxy. -/
theorem client_chooses_its_keys :
    behindProxy.rightMost = some (.v4 0xCB007109) ∧
      behindProxy.key ⟨none, some (utf8 "198.51.100.7"), none⟩ = .v4 0xC6336407 ∧
      privateProxies.trusts (.v4 0xCB007109) = false ∧
      loginAddress ⟨none, none, some (utf8 "198.51.100.7")⟩ = some (.v4 0xC6336407) := by
  refine ⟨?_, ?_, ?_, ?_⟩ <;> decide +kernel

end Edda.App.ThrottleKeys
