import Frostvault.Access.Addresses

/-!
The address of a client behind trusted proxies (`resolve_client_ip` of `app/proxy.py`) and the
decision that rests on it (`is_break_glass_allowed` of `app/breakglass.py`).

The header `X-Forwarded-For` is a list of hops, and a client may send one of its own.  Every proxy
appends the address of its own peer, so the last hops are those the proxies have seen; the walk
from the right skips trusted ones and stops at the client.

* `resolveClientIp`: the walk;
* `ProxyHop`, `throughProxies`: a request on its way through the proxies;
* `hopsOf_append`, `hopsOf_throughProxies`: what a proxy and a chain of them do to the hops;
* `resolveClientIp_throughProxies`: the walk ends at the client;
* `forwarded_address_unforgeable`: **what the client sends makes no difference**.
-/

namespace Frostvault

open List

/-! ### The walk -/

/-- `_is_trusted`. -/
def isTrusted (address : List Char) (trustedProxies : List IpNetwork) : Bool :=
  match ipAddress address with
  | none => false
  | some parsed => trustedProxies.any fun network => network.contains parsed

/-- `[hop.strip() for hop in forwarded_for.split(",") if hop.strip()]`. -/
def hopsOf (forwardedFor : List Char) : List (List Char) :=
  ((forwardedFor.splitOn ',').map (Text.strip isSpace)).filter (· ≠ [])

/-- `resolve_client_ip`. -/
def resolveClientIp (peer forwardedFor : Option (List Char)) (trustedProxies : List IpNetwork) :
    Option (List Char) :=
  match peer with
  | none => none
  | some peer =>
      if peer = [] then none
      else match forwardedFor with
        | none => some peer
        | some header =>
            if header = [] ∨ isTrusted peer trustedProxies = false then some peer
            else
              let hops := hopsOf header
              match hops.reverse.find? fun hop => !isTrusted hop trustedProxies with
              | some hop => some hop
              | none => some (hops.headD peer)

/-- `_LOOPBACK_NETWORKS`. -/
def loopbackNetworks : List IpNetwork :=
  [⟨.v4, 0x7f000000, 0xff000000⟩, ⟨.v6, 1, 2 ^ 128 - 1⟩]

/-- `is_break_glass_allowed`; `allowed` is what `parse_cidrs` makes of the setting, `none` when it
raises. -/
def isBreakGlassAllowed (allowed : Option (List IpNetwork)) (clientIp : Option (List Char)) :
    Bool :=
  match clientIp with
  | none => false
  | some text =>
      match ipAddress text with
      | none => false
      | some address =>
          loopbackNetworks.any (fun network => network.contains address) ||
            (allowed.getD []).any fun network => network.contains address

/-! ### A request on its way -/

/-- The text of an address: neither empty nor with a comma or white space. -/
structure IsAddressText (text : List Char) : Prop where
  nonempty : text ≠ []
  plain : ∀ c ∈ text, c ≠ ',' ∧ isSpace c = false

/-- A proxy: its address, and the white space around the comma it writes. -/
structure ProxyHop where
  address : List Char
  before : List Char
  after : List Char
  before_space : ∀ c ∈ before, isSpace c = true
  after_space : ∀ c ∈ after, isSpace c = true

/-- The header after a proxy has appended the address of its peer. -/
def ProxyHop.append (p : ProxyHop) (header : Option (List Char)) (peer : List Char) : List Char :=
  match header with
  | none => peer
  | some header => header ++ p.before ++ ',' :: p.after ++ peer

/-- The peer and the header the application sees: each proxy is the peer of the next. -/
def throughProxies (peer : List Char) (header : Option (List Char)) :
    List ProxyHop → List Char × Option (List Char)
  | [] => (peer, header)
  | p :: proxies => throughProxies p.address (some (p.append header peer)) proxies

variable {client peer text : List Char} {trustedProxies : List IpNetwork}
  {proxies : List ProxyHop}

/-! ### The hops -/

variable {l : List Char}

lemma strip_spaces_append (h : ∀ c ∈ l, isSpace c) (text : List Char) :
    Text.strip isSpace (l ++ text) = Text.strip isSpace text := by
  rw [Text.strip, Text.strip, dropWhile_append_of_pos h]

/-- White space after a text is stripped off. -/
lemma strip_append_spaces (h : ∀ c ∈ l, isSpace c) (text : List Char) :
    Text.strip isSpace (text ++ l) = Text.strip isSpace text := by
  have hright (t : List Char) : (t ++ l).rdropWhile isSpace = t.rdropWhile isSpace := by
    rw [List.rdropWhile, List.rdropWhile, reverse_append,
      dropWhile_append_of_pos fun c hc => h c (mem_reverse.mp hc)]
  rw [Text.strip, Text.strip, dropWhile_append]
  split
  · rename_i hempty
    rw [isEmpty_iff.mp hempty, dropWhile_eq_nil_iff.mpr h]
  · exact hright _

lemma hopsOf_comma (header rest : List Char) :
    hopsOf (header ++ ',' :: rest) = hopsOf header ++ hopsOf rest := by
  rw [hopsOf, splitOn_append_cons_self, map_append, filter_append]
  rfl

namespace IsAddressText

lemma strip_eq (h : IsAddressText text) : Text.strip isSpace text = text := by
  refine Text.strip_eq_self _ _ ?_ ?_
  · rintro c cs rfl
    exact (h.plain c mem_cons_self).2
  · rintro cs c rfl
    exact (h.plain c (by simp)).2

lemma comma_not_mem (h : IsAddressText text) : ',' ∉ text :=
  fun hmem => (h.plain _ hmem).1 rfl

end IsAddressText

lemma hopsOf_of_not_mem (h : ',' ∉ text) :
    hopsOf text = [Text.strip isSpace text].filter (· ≠ []) := by
  rw [hopsOf, splitOn_eq_singleton h, map_singleton]

section

variable (h : ∀ c ∈ l, isSpace c)

include h

lemma comma_not_mem : ',' ∉ l := by
  intro hmem
  cases h _ hmem

/-- White space at the end of a header is of no account. -/
lemma hopsOf_append_spaces (text : List Char) :
    hopsOf (text ++ l) = hopsOf text := by
  -- the part behind the last comma takes the white space
  have hlast {w : List Char} (hw : ',' ∉ w) : hopsOf (w ++ l) = hopsOf w := by
    have happ : ',' ∉ w ++ l := by
      rw [mem_append, not_or]
      exact ⟨hw, comma_not_mem h⟩
    rw [hopsOf_of_not_mem happ, hopsOf_of_not_mem hw, strip_append_spaces h]
  by_cases hcomma : ',' ∈ text
  · obtain ⟨d, w, rfl, hw⟩ := Text.exists_last_sep ',' hcomma
    rw [append_assoc, cons_append, hopsOf_comma, hopsOf_comma, hlast hw]
  · exact hlast hcomma

/-- White space before an address is of no account. -/
lemma hopsOf_spaces_append (ht : IsAddressText text) : hopsOf (l ++ text) = [text] := by
  have happ : ',' ∉ l ++ text := by
    rw [mem_append, not_or]
    exact ⟨comma_not_mem h, ht.comma_not_mem⟩
  rw [hopsOf_of_not_mem happ, strip_spaces_append h, ht.strip_eq]
  simp [ht.nonempty]

end

/-- **What a proxy does to the hops**: the address of its peer is the last one. -/
lemma hopsOf_append (p : ProxyHop) (header : Option (List Char)) (h : IsAddressText peer) :
    hopsOf (p.append header peer) = hopsOf (header.getD []) ++ [peer] := by
  cases header with
  | none => exact hopsOf_spaces_append (l := []) (by simp) h
  | some header =>
      have hshape : p.append (some header) peer =
          (header ++ p.before) ++ ',' :: (p.after ++ peer) := by
        simp [ProxyHop.append]
      rw [hshape, hopsOf_comma, hopsOf_append_spaces p.before_space,
        hopsOf_spaces_append p.after_space h, Option.getD_some]

/-! ### The chain -/

/-- The addresses a request passes: its sender's and those of the proxies. -/
def passed (peer : List Char) (proxies : List ProxyHop) : List (List Char) :=
  peer :: proxies.map ProxyHop.address

lemma passed_ne_nil (peer : List Char) (proxies : List ProxyHop) : passed peer proxies ≠ [] :=
  cons_ne_nil _ _

/-- The application's peer is the last address passed. -/
lemma throughProxies_peer (proxies : List ProxyHop) (peer : List Char)
    (header : Option (List Char)) : (throughProxies peer header proxies).1 =
      (passed peer proxies).getLast (passed_ne_nil _ _) := by
  induction proxies generalizing peer header with
  | nil => rfl
  | cons p proxies ih =>
      rw [throughProxies, ih]
      exact (getLast_cons (passed_ne_nil p.address proxies)).symm

/-- **What the chain does to the hops**: every address passed but the last is appended. -/
lemma hopsOf_throughProxies (proxies : List ProxyHop) (peer : List Char)
    (header : Option (List Char)) (h : ∀ a ∈ passed peer proxies, IsAddressText a) :
    hopsOf ((throughProxies peer header proxies).2.getD []) =
      hopsOf (header.getD []) ++ (passed peer proxies).dropLast := by
  induction proxies generalizing peer header with
  | nil => simp [throughProxies, passed]
  | cons p proxies ih =>
      have hpeer : IsAddressText peer := h peer mem_cons_self
      have hrest : ∀ a ∈ passed p.address proxies, IsAddressText a :=
        fun a ha => h a (mem_cons_of_mem _ ha)
      have hdrop : (passed peer (p :: proxies)).dropLast =
          peer :: (passed p.address proxies).dropLast :=
        dropLast_cons_of_ne_nil (passed_ne_nil _ _)
      rw [throughProxies, ih _ _ hrest, Option.getD_some, hopsOf_append p header hpeer, hdrop,
        append_assoc, singleton_append]

/-- The walk ends at the last hop that is not trusted. -/
lemma find?_untrusted (before : List (List Char)) {behind : List (List Char)}
    (hclient : isTrusted client trustedProxies = false)
    (hbehind : ∀ hop ∈ behind, isTrusted hop trustedProxies) :
    (before ++ client :: behind).reverse.find? (fun hop => !isTrusted hop trustedProxies) =
      some client := by
  have hnone : behind.reverse.find? (fun hop => !isTrusted hop trustedProxies) = none := by
    rw [find?_eq_none]
    intro hop hmem
    simp [hbehind hop (mem_reverse.mp hmem)]
  rw [reverse_append, reverse_cons, append_assoc, find?_append, hnone,
    Option.none_or, singleton_append, find?_cons_of_pos (by simp [hclient])]

/-- A chain of proxies: there is one, each has the address of a trusted one. -/
structure TrustedChain (proxies : List ProxyHop) (trustedProxies : List IpNetwork) : Prop where
  nonempty : proxies ≠ []
  address : ∀ p ∈ proxies, IsAddressText p.address
  trusted : ∀ p ∈ proxies, isTrusted p.address trustedProxies = true

/-- **The walk ends at the client**, whatever header it has sent. -/
lemma resolveClientIp_throughProxies (sent : Option (List Char))
    (hchain : TrustedChain proxies trustedProxies) (hclient : IsAddressText client)
    (huntrusted : isTrusted client trustedProxies = false) :
    resolveClientIp (some (throughProxies client sent proxies).1)
      (throughProxies client sent proxies).2 trustedProxies = some client := by
  obtain ⟨p, rest, rfl⟩ := exists_cons_of_ne_nil hchain.nonempty
  have hpassed : ∀ a ∈ passed p.address rest,
      IsAddressText a ∧ isTrusted a trustedProxies := by
    intro a ha
    obtain ⟨q, hq, rfl⟩ : ∃ q ∈ p :: rest, q.address = a := by
      rwa [passed, ← map_cons, mem_map] at ha
    exact ⟨hchain.address q hq, hchain.trusted q hq⟩
  set received := throughProxies client sent (p :: rest) with hreceived
  -- the peer is the last proxy
  have hpeer : received.1 ∈ passed p.address rest := by
    rw [hreceived, throughProxies, throughProxies_peer]
    exact getLast_mem _
  have hhops : hopsOf (received.2.getD []) =
      hopsOf (sent.getD []) ++ client :: (passed p.address rest).dropLast := by
    have hall : ∀ a ∈ passed client (p :: rest), IsAddressText a := by
      intro a ha
      rcases mem_cons.mp ha with rfl | ha
      · exact hclient
      · exact (hpassed a ha).1
    rw [hreceived, hopsOf_throughProxies _ _ _ hall]
    exact congrArg _ (dropLast_cons_of_ne_nil (passed_ne_nil _ _))
  have hheader : received.2.getD [] ≠ [] := by
    intro hnil
    rw [hnil] at hhops
    exact absurd hhops (by simp [show hopsOf [] = [] from rfl])
  obtain ⟨header, hsome⟩ : ∃ header, received.2 = some header := by
    cases hr : received.2 with
    | none => exact absurd (by rw [hr]; rfl) hheader
    | some header => exact ⟨header, rfl⟩
  rw [hsome, Option.getD_some] at hhops hheader
  have hfind := find?_untrusted (hopsOf (sent.getD [])) huntrusted fun hop hmem =>
    (hpassed hop (mem_of_mem_dropLast hmem)).2
  rw [← hhops] at hfind
  simp only [resolveClientIp, hsome, (hpassed _ hpeer).1.nonempty, (hpassed _ hpeer).2, hheader,
    if_false, or_self, hfind, Bool.true_eq_false]

/-! ### The claim of the header -/

/-- **What the client sends makes no difference**: behind a chain of trusted proxies its address
is found, and so the decision on the emergency password is that for its address. -/
theorem forwarded_address_unforgeable (allowed : Option (List IpNetwork))
    (hchain : TrustedChain proxies trustedProxies) (hclient : IsAddressText client)
    (huntrusted : isTrusted client trustedProxies = false) (sent sent' : Option (List Char)) :
    let resolved (sent : Option (List Char)) :=
      resolveClientIp (some (throughProxies client sent proxies).1)
        (throughProxies client sent proxies).2 trustedProxies
    resolved sent = some client ∧ resolved sent = resolved sent' ∧
      isBreakGlassAllowed allowed (resolved sent) =
        isBreakGlassAllowed allowed (resolved sent') := by
  intro resolved
  have h (sent : Option (List Char)) : resolved sent = some client :=
    resolveClientIp_throughProxies sent hchain hclient huntrusted
  rw [h sent, h sent']
  exact ⟨rfl, rfl, rfl⟩

/-- Two proxies of a private network: a client that forges the address of the machine itself. -/
theorem forwarded_address_unforgeable_two_proxies :
    let proxies : List ProxyHop :=
      [⟨"10.0.0.4".toList, [], [' '], by simp, forall_mem_singleton.mpr rfl⟩,
        ⟨"10.0.0.5".toList, [], [' '], by simp, forall_mem_singleton.mpr rfl⟩]
    resolveClientIp (some (throughProxies "203.0.113.9".toList (some "127.0.0.1, ,".toList)
        proxies).1) (throughProxies "203.0.113.9".toList (some "127.0.0.1, ,".toList) proxies).2
      [⟨.v4, 0x0a000000, 0xff000000⟩] = some "203.0.113.9".toList := by
  intro proxies
  have hplain (text : List Char) (hne : text ≠ [])
      (h : (text.all fun c => c ≠ ',' && !isSpace c) = true) : IsAddressText text :=
    ⟨hne, fun c hc => by simpa using all_eq_true.mp h c hc⟩
  have hchain : TrustedChain proxies [⟨.v4, 0x0a000000, 0xff000000⟩] := by
    refine ⟨by simp [proxies], ?_, ?_⟩
    · intro p hp
      rcases mem_pair.mp hp with rfl | rfl <;>
        exact hplain _ (by decide) (by decide)
    · intro p hp
      rcases mem_pair.mp hp with rfl | rfl <;> decide
  exact (forwarded_address_unforgeable none hchain (hplain _ (by decide) (by decide))
    (by decide) (some "127.0.0.1, ,".toList) none).1

end Frostvault
