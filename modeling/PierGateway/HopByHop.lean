import PierGateway.PassThrough

/-!
# What must not cross the proxy

A field is bound to one connection when it is on a fixed list or when the
`Connection` line of the same message names it. The rewriting knows its two lists
and does not read the line, so it is exact on the messages whose line names nothing
else and which come without `Proxy-Connection`; the reverse proxy has removed these
fields, and replacing its header map brings them back.
-/
namespace PierGateway.Proxy
open GoStrings HttpMessages ReverseProxy SigV4

/-- A field of an earlier signature, of the caller's identity or of the connection. -/
def MustStrip (h : Header) (k : Str) : Prop :=
  k ∈ sigV4Headers ∨ k ∈ hopByHopHeaders ∨ k = str "Proxy-Connection" ∨
    ∃ name ∈ connectionFields h, canonicalKey name = k

instance (h : Header) (k : Str) : Decidable (MustStrip h k) := inferInstanceAs (Decidable (_ ∨ _))

theorem proxyConnection_not_listed :
    str "Proxy-Connection" ∉ sigV4Headers ∧ str "Proxy-Connection" ∉ hopByHopHeaders := by
  simp [sigV4Headers, hopByHopHeaders]

/-- Every connection field has gone, and no other, exactly when those that are present are on
the two lists. -/
theorem stripped_exactly_iff (h : Header) :
    (∀ k, (rewriteHeaders h).lookup k = if MustStrip h k then none else h.lookup k) ↔
      ¬h.Has (str "Proxy-Connection") ∧ ∀ name ∈ connectionFields h, h.Has (canonicalKey name) →
        canonicalKey name ∈ sigV4Headers ∨ canonicalKey name ∈ hopByHopHeaders := by
  -- a field that must go and stays is absent or on a list
  have hkept : ∀ k, (rewriteHeaders h).lookup k = none → h.Has k →
      k ∈ sigV4Headers ∨ k ∈ hopByHopHeaders := by
    intro k hnone hhas
    by_contra hk
    rw [lookup_rewriteHeaders, if_neg hk] at hnone
    obtain ⟨vs, hvs⟩ := Header.has_iff.mp hhas
    rw [hnone] at hvs
    cases hvs
  constructor
  · intro hlaw
    constructor
    · intro hhas
      have hnone := hlaw (str "Proxy-Connection")
      rw [if_pos (.inr (.inr (.inl rfl)))] at hnone
      exact (hkept _ hnone hhas).elim proxyConnection_not_listed.1 proxyConnection_not_listed.2
    · intro name hname hhas
      have hnone := hlaw (canonicalKey name)
      rw [if_pos (.inr (.inr (.inr ⟨name, hname, rfl⟩)))] at hnone
      exact hkept _ hnone hhas
  · rintro ⟨hproxy, hnamed⟩ k
    rw [lookup_rewriteHeaders]
    by_cases hk : k ∈ sigV4Headers ∨ k ∈ hopByHopHeaders
    · have hmust : MustStrip h k := hk.elim .inl fun hhop => .inr (.inl hhop)
      rw [if_pos hk, if_pos hmust]
    · rw [if_neg hk]
      split_ifs with hmust
      · by_contra hsome
        have hhas : h.Has k := Header.has_iff.mpr (Option.ne_none_iff_exists'.mp hsome)
        rcases hmust with hsig | hhop | rfl | ⟨name, hname, rfl⟩
        · exact hk (.inl hsig)
        · exact hk (.inr hhop)
        · exact hproxy hhas
        · exact hk (hnamed name hname hhas)
      · rfl

/-- The headers handed to the signer are the rewritten inbound ones, whatever the reverse proxy
had made of them. -/
theorem signed_header {p : PassThrough} {r : Request} {call : SignCall}
    (hcall : p.signCall? r = some call) : call.args.request.header = rewriteHeaders r.header := by
  obtain ⟨target, creds, -, -, -, hargs, -⟩ := signCall?_eq_some hcall
  rw [hargs]
  rfl

/-- The rewriting strips what must not cross and nothing else, and its result is what is
signed and sent. -/
structure StripsExactly (h : Header) : Prop where
  strips : ∀ k, (rewriteHeaders h).lookup k = if MustStrip h k then none else h.lookup k
  forwarded : ∀ (p : PassThrough) (r : Request) (call : SignCall), r.header = h →
    p.signCall? r = some call → call.args.request.header = rewriteHeaders h

theorem stripsExactly_iff (h : Header) :
    StripsExactly h ↔
      ¬h.Has (str "Proxy-Connection") ∧ ∀ name ∈ connectionFields h, h.Has (canonicalKey name) →
        canonicalKey name ∈ sigV4Headers ∨ canonicalKey name ∈ hopByHopHeaders := by
  rw [← stripped_exactly_iff]
  constructor
  · intro hexact
    exact hexact.strips
  · intro hstrips
    refine ⟨hstrips, ?_⟩
    rintro p r call rfl hcall
    exact signed_header hcall

/-- A message whose `Connection` line names a field of its own. -/
def namingHeader : Header :=
  Header.ofLines [(str "Connection", str "close, x-hop"), (str "X-Hop", str "1")]

theorem not_always_stripsExactly : ¬∀ h, StripsExactly h := by
  intro hall
  have hfacts : str "x-hop" ∈ connectionFields namingHeader ∧
      namingHeader.Has (canonicalKey (str "x-hop")) ∧
      canonicalKey (str "x-hop") ∉ sigV4Headers ∧ canonicalKey (str "x-hop") ∉ hopByHopHeaders := by
    decide
  obtain ⟨hname, hhas, hsig, hhop⟩ := hfacts
  have hlist := ((stripped_exactly_iff namingHeader).mp (hall namingHeader).strips).2 _ hname hhas
  exact hlist.elim hsig hhop

end PierGateway.Proxy
