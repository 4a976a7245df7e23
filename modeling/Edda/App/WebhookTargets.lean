import Edda.Domain.BlockedAddresses

/-!
# Webhook targets

The check of a target URL: the host is resolved, and refused where one of its addresses is blocked.
The check runs when a webhook is created and again at each delivery, which goes to the address that
the check returns. `blocked_address_forms` says in which forms a blocked IPv4 address is refused,
and `admits_form` that a host with an address in any other form is admitted.
-/

set_option autoImplicit false

namespace Edda.App.WebhookTargets

open Edda.Domain.BlockedAddresses

abbrev Port := BitVec 16

/-- What the check reads of a parsed URL. -/
structure Url where
  scheme : String
  hostStr : Option String
  portOrKnownDefault : Option Port

/-- `std::net::SocketAddr`. -/
structure SocketAddr where
  ip : IpAddr
  port : Port
deriving DecidableEq

inductive SsrfError where
  | unsupportedScheme
  | noHost
  | resolutionFailed
  | blocked
deriving DecidableEq

/-- The URL parser and the resolver, as they answer while the check runs. -/
structure Resolver where
  parse : String → Option Url
  lookupHost : String → Port → Option (List SocketAddr)

section Check

variable (resolver : Resolver)

/-- The addresses of a host, the first of them apart. -/
def checkAddrs (host : String) : List SocketAddr → Except SsrfError (String × SocketAddr)
  | [] => .error .resolutionFailed
  | first :: rest =>
    if (first :: rest).any fun addr => isBlockedIp addr.ip then .error .blocked
    else .ok (host, first)

/-- `resolve_and_check`: the host and the address that a delivery connects to. -/
def resolveAndCheck (url : String) : Except SsrfError (String × SocketAddr) :=
  match resolver.parse url with
  | none => .error .noHost
  | some parsed =>
    if parsed.scheme ≠ "http" ∧ parsed.scheme ≠ "https" then .error .unsupportedScheme
    else match parsed.hostStr, parsed.portOrKnownDefault with
      | none, _ => .error .noHost
      -- a scheme without a port of its own is neither of the two
      | some _, none => .error .unsupportedScheme
      | some host, some port => match resolver.lookupHost host port with
        | none => .error .resolutionFailed
        | some addrs => checkAddrs host addrs

/-- The URL leads to a host with these addresses. -/
def LeadsTo (url host : String) (addrs : List SocketAddr) : Prop :=
  ∃ parsed port, resolver.parse url = some parsed ∧
    (parsed.scheme = "http" ∨ parsed.scheme = "https") ∧ parsed.hostStr = some host ∧
      parsed.portOrKnownDefault = some port ∧ resolver.lookupHost host port = some addrs

variable {resolver}

theorem checkAddrs_eq_ok_iff {host host' : String} {addrs : List SocketAddr} {addr : SocketAddr} :
    checkAddrs host addrs = .ok (host', addr) ↔
      host = host' ∧ addrs.head? = some addr ∧ ∀ found ∈ addrs, isBlockedIp found.ip = false := by
  cases addrs with
  | nil => simp [checkAddrs]
  | cons first rest =>
    rw [checkAddrs]
    by_cases hany : ((first :: rest).any fun addr => isBlockedIp addr.ip) = true
    · rw [if_pos hany]
      obtain ⟨found, hmem, hblocked⟩ := List.any_eq_true.1 hany
      constructor
      · intro h
        cases h
      · rintro ⟨-, -, hall⟩
        rw [hall found hmem] at hblocked
        cases hblocked
    · rw [if_neg hany]
      simp only [Except.ok.injEq, Prod.mk.injEq, List.head?_cons, Option.some.injEq]
      have hall : ∀ found ∈ first :: rest, isBlockedIp found.ip = false := by
        intro found hmem
        rw [Bool.eq_false_iff]
        exact fun hblocked => hany (List.any_eq_true.2 ⟨found, hmem, hblocked⟩)
      exact ⟨fun ⟨hhost, haddr⟩ => ⟨hhost, haddr, hall⟩, fun ⟨hhost, haddr, _⟩ => ⟨hhost, haddr⟩⟩

/-- A target is admitted with the first address of its host, where none of them is blocked. -/
theorem resolveAndCheck_eq_ok_iff {url host : String} {addr : SocketAddr} :
    resolveAndCheck resolver url = .ok (host, addr) ↔
      ∃ addrs, LeadsTo resolver url host addrs ∧ addrs.head? = some addr ∧
        ∀ found ∈ addrs, isBlockedIp found.ip = false := by
  constructor
  · intro h
    unfold resolveAndCheck at h
    split at h
    · cases h
    · rename_i parsed hparse
      split at h
      · cases h
      · rename_i hscheme
        split at h
        · cases h
        · cases h
        · rename_i host' port hhost hport
          split at h
          · cases h
          · rename_i addrs hlookup
            obtain ⟨rfl, hfirst, hall⟩ := checkAddrs_eq_ok_iff.1 h
            refine ⟨addrs, ⟨parsed, port, hparse, ?_, hhost, hport, hlookup⟩, hfirst, hall⟩
            rw [not_and_or, not_not, not_not] at hscheme
            exact hscheme
  · rintro ⟨addrs, ⟨parsed, port, hparse, hscheme, hhost, hport, hlookup⟩, hfirst, hall⟩
    have hadmitted : ¬ (parsed.scheme ≠ "http" ∧ parsed.scheme ≠ "https") := by
      rw [not_and_or, not_not, not_not]
      exact hscheme
    simp only [resolveAndCheck, hparse, if_neg hadmitted, hhost, hport, hlookup]
    exact checkAddrs_eq_ok_iff.2 ⟨rfl, hfirst, hall⟩

theorem LeadsTo.unique {url host host' : String} {addrs addrs' : List SocketAddr}
    (h : LeadsTo resolver url host addrs) (h' : LeadsTo resolver url host' addrs') :
    host = host' ∧ addrs = addrs' := by
  obtain ⟨parsed, port, hparse, -, hhost, hport, hlookup⟩ := h
  obtain ⟨parsed', port', hparse', -, hhost', hport', hlookup'⟩ := h'
  obtain rfl := Option.some.inj (hparse.symm.trans hparse')
  obtain rfl := Option.some.inj (hhost.symm.trans hhost')
  obtain rfl := Option.some.inj (hport.symm.trans hport')
  exact ⟨rfl, Option.some.inj (hlookup.symm.trans hlookup')⟩

/-- What an admitted host reaches of the blocked addresses, it reaches by a form that the filter
does not recognise. -/
theorem unrecognised_of_admitted {url host : String} {addrs : List SocketAddr} {addr : SocketAddr}
    {ip : Ipv4Addr} (hok : resolveAndCheck resolver url = .ok (host, addr))
    (hleads : LeadsTo resolver url host addrs) (hblocked : isBlockedIpv4 ip = true) :
    ∀ found ∈ addrs, Reaches found.ip ip →
      ∃ form : Embedding, ¬ form.Recognised ip ∧ found.ip = .v6 (form.address ip) := by
  obtain ⟨addrs', hleads', -, hall⟩ := resolveAndCheck_eq_ok_iff.1 hok
  obtain ⟨-, rfl⟩ := hleads.unique hleads'
  intro found hmem hreaches
  have hfree := hall found hmem
  rcases hreaches with hself | ⟨form, hform⟩
  · rw [hself, isBlockedIp, hblocked] at hfree
    cases hfree
  · refine ⟨form, ?_, hform⟩
    intro hrecognised
    rw [hform, isBlockedIp, (isBlockedIpv6_address ip form hblocked).2 hrecognised] at hfree
    cases hfree

/-- A host whose address is a form of a blocked one is admitted where the filter does not recognise
the form. -/
theorem admits_form {url host : String} {ip : Ipv4Addr} {form : Embedding} {port : Port}
    (hleads : LeadsTo resolver url host [⟨.v6 (form.address ip), port⟩])
    (hblocked : isBlockedIpv4 ip = true) :
    resolveAndCheck resolver url = .ok (host, ⟨.v6 (form.address ip), port⟩) ↔
      ¬ form.Recognised ip := by
  rw [resolveAndCheck_eq_ok_iff, ← isBlockedIpv6_address ip form hblocked, Bool.not_eq_true]
  constructor
  · rintro ⟨addrs, hleads', -, hall⟩
    obtain ⟨-, rfl⟩ := hleads.unique hleads'
    exact hall _ List.mem_cons_self
  · intro hfree
    refine ⟨_, hleads, rfl, ?_⟩
    intro found hmem
    obtain rfl := List.mem_singleton.1 hmem
    exact hfree

/-- A blocked IPv4 address is refused as mapped, and in the form in which it is the unspecified
address, and in no other form. Whatever the check admits, none of the addresses of the host is one
that the filter refuses. -/
theorem blocked_address_forms (resolver : Resolver) (url : String) (form : Embedding)
    (ip : Ipv4Addr) (hblocked : isBlockedIp (.v4 ip) = true) :
    (isBlockedIp (.v6 (form.address ip)) = true ↔
      form = .mapped ∨ (form = .compatible ∧ ip = .unspecified)) ∧
    ∀ host addr, resolveAndCheck resolver url = .ok (host, addr) →
      ∃ addrs, LeadsTo resolver url host addrs ∧ addr ∈ addrs ∧
        ∀ found ∈ addrs, isBlockedIp found.ip = false := by
  refine ⟨isBlockedIpv6_address ip form hblocked, ?_⟩
  intro host addr hok
  obtain ⟨addrs, hleads, hfirst, hall⟩ := resolveAndCheck_eq_ok_iff.1 hok
  exact ⟨addrs, hleads, List.mem_of_head? hfirst, hall⟩

end Check

/-! ## A host behind a translator -/

/-- A resolver that has one host, whose address is a form of `127.0.0.1`. -/
def loopbackBehind (form : Embedding) : Resolver where
  parse := fun url => if url = "https://hook.example/" then
    some ⟨"https", some "hook.example", some 443⟩ else none
  lookupHost := fun _ port => some [⟨.v6 (form.address ⟨127, 0, 0, 1⟩), port⟩]

/-- As a mapped address, the loopback address is refused. -/
theorem blocked_address_forms_mapped :
    isBlockedIp (.v6 (Embedding.mapped.address ⟨127, 0, 0, 1⟩)) = true :=
  (blocked_address_forms (loopbackBehind .mapped) "https://hook.example/" .mapped ⟨127, 0, 0, 1⟩
    (by decide)).1.2 (.inl rfl)

/-- The translation network has the loopback address at `64:ff9b::7f00:1`, and 6to4 at
`2002:7f00:1::`. Hosts with these addresses are admitted. -/
theorem loopback_admitted :
    isBlockedIp (.v4 ⟨127, 0, 0, 1⟩) = true ∧
      (isBlockedIp (.v6 ⟨0x64, 0xff9b, 0, 0, 0, 0, 0x7f00, 1⟩) = false ∧
        resolveAndCheck (loopbackBehind .nat64) "https://hook.example/" =
          .ok ("hook.example", ⟨.v6 ⟨0x64, 0xff9b, 0, 0, 0, 0, 0x7f00, 1⟩, 443⟩)) ∧
      isBlockedIp (.v6 ⟨0x2002, 0x7f00, 1, 0, 0, 0, 0, 0⟩) = false ∧
        resolveAndCheck (loopbackBehind (.sixToFour 0 0 0 0 0)) "https://hook.example/" =
          .ok ("hook.example", ⟨.v6 ⟨0x2002, 0x7f00, 1, 0, 0, 0, 0, 0⟩, 443⟩) := by
  refine ⟨by decide, ⟨by decide, ?_⟩, by decide, ?_⟩
  · decide +kernel
  · decide +kernel

end Edda.App.WebhookTargets
