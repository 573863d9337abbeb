import Boltwire.Disclosure

namespace Boltwire
open Future

abbrev Cert := List UInt8

/-- What a server presents to be verified. -/
structure Presented where
  endEntity : Cert
  intermediates : List Cert
  ocspResponse : List UInt8
  now : ℕ

/-- What is used of rustls and of the crates beside it. Their errors are texts. -/
structure Rustls where
  RootCertStore : Type
  PrivateKey : Type
  ServerName : Type
  /-- `with_safe_default_protocol_versions`, of the ring provider -/
  versions : Except String Unit
  /-- `rustls_pemfile::certs` -/
  certs : List UInt8 → List (Except String Cert)
  /-- `rustls_pemfile::private_key` -/
  privateKey : List UInt8 → Except String (Option PrivateKey)
  /-- `webpki_roots::TLS_SERVER_ROOTS` -/
  webpkiRoots : RootCertStore
  /-- `rustls_native_certs::load_native_certs().certs` -/
  nativeCerts : List Cert
  /-- `RootCertStore::add` -/
  add : RootCertStore → Cert → Except String RootCertStore
  /-- `with_client_auth_cert` -/
  clientAuth : List Cert → PrivateKey → Except String Unit
  /-- `ServerName::try_from` -/
  serverName : String → Except String ServerName
  /-- The verifier of `with_root_certificates`. -/
  verifyChain : RootCertStore → Presented → ServerName → Except String Unit
  /-- `{:?}` of a string -/
  debug : String → String

inductive Trust
  /-- Any certificate (`danger_accept_invalid_certs`). -/
  | any
  /-- Exactly these end-entity certificates. -/
  | pinned (pins : List Cert)

variable {lib : Rustls}

/-- `CustomVerifier`, or the one that rustls makes of roots. -/
inductive Verifier (lib : Rustls)
  | custom (trust : Trust)
  | webpki (roots : lib.RootCertStore)

def Verifier.verifyServerCert (v : Verifier lib) (p : Presented) (name : lib.ServerName) :
    Except String Unit :=
  match v with
  | .custom .any => .ok ()
  | .custom (.pinned pins) =>
    if p.endEntity ∈ pins then .ok () else .error "ApplicationVerificationFailure"
  | .webpki roots => lib.verifyChain roots p name

structure ClientConfig (lib : Rustls) where
  verifier : Verifier lib
  identity : Option (List Cert × lib.PrivateKey)

structure RustlsProvider (lib : Rustls) where
  connector : ClientConfig lib

structure RustlsProviderBuilder (lib : Rustls) where
  rootStore : Option lib.RootCertStore
  extraRootsPem : List (List UInt8)
  extraRootsDer : List Cert
  pinsPem : List (List UInt8)
  pinsDer : List Cert
  acceptInvalid : Bool
  nativeRoots : Bool
  identity : Option (List UInt8 × List UInt8)

def pemCerts (lib : Rustls) (pem : List UInt8) (what : String) : Except BoltError (List Cert) :=
  ((lib.certs pem).mapM id).mapError fun e => .tls ("invalid " ++ what ++ ": " ++ e)

namespace RustlsProviderBuilder

def default : RustlsProviderBuilder lib := ⟨none, [], [], [], [], false, false, none⟩

def addRootPem (b : RustlsProviderBuilder lib) (pem : List UInt8) : RustlsProviderBuilder lib :=
  { b with extraRootsPem := b.extraRootsPem ++ [pem] }

def addRootDer (b : RustlsProviderBuilder lib) (der : Cert) : RustlsProviderBuilder lib :=
  { b with extraRootsDer := b.extraRootsDer ++ [der] }

def withRootStore (b : RustlsProviderBuilder lib) (roots : lib.RootCertStore) :
    RustlsProviderBuilder lib :=
  { b with rootStore := some roots }

def pinCertificatePem (b : RustlsProviderBuilder lib) (pem : List UInt8) :
    RustlsProviderBuilder lib :=
  { b with pinsPem := b.pinsPem ++ [pem] }

def pinCertificateDer (b : RustlsProviderBuilder lib) (der : Cert) : RustlsProviderBuilder lib :=
  { b with pinsDer := b.pinsDer ++ [der] }

def dangerAcceptInvalidCerts (b : RustlsProviderBuilder lib) (accept : Bool) :
    RustlsProviderBuilder lib :=
  { b with acceptInvalid := accept }

def useNativeRoots (b : RustlsProviderBuilder lib) : RustlsProviderBuilder lib :=
  { b with nativeRoots := true }

def clientIdentity (b : RustlsProviderBuilder lib) (certChainPem keyPem : List UInt8) :
    RustlsProviderBuilder lib :=
  { b with identity := some (certChainPem, keyPem) }

def collectPins (lib : Rustls) (pins : List Cert) : List (List UInt8) →
    Except BoltError (List Cert)
  | [] => .ok pins
  | pem :: pems => do
    let certs ← pemCerts lib pem "pinned certificate"
    let pins' := pins ++ certs
    if pins'.length = pins.length then .error (.tls "no certificate in pinned PEM")
    else collectPins lib pins' pems

def addUsable (roots : lib.RootCertStore) (certs : List Cert) : lib.RootCertStore :=
  certs.foldl (fun roots cert => (lib.add roots cert).toOption.getD roots) roots

def collectRoots (lib : Rustls) (extra : List Cert) : List (List UInt8) →
    Except BoltError (List Cert)
  | [] => .ok extra
  | pem :: pems => do
    let certs ← pemCerts lib pem "PEM root"
    collectRoots lib (extra ++ certs) pems

def addAll (roots : lib.RootCertStore) : List Cert → Except BoltError lib.RootCertStore
  | [] => .ok roots
  | cert :: certs => do
    let roots ← (lib.add roots cert).mapError fun e => .tls ("unusable root certificate: " ++ e)
    addAll roots certs

def verifier (b : RustlsProviderBuilder lib) : Except BoltError (Verifier lib) := do
  let pins ← collectPins lib b.pinsDer b.pinsPem
  if b.acceptInvalid then .ok (.custom .any)
  else if pins ≠ [] then .ok (.custom (.pinned pins))
  else do
    let roots := b.rootStore.getD lib.webpkiRoots
    let roots := if b.nativeRoots then addUsable roots lib.nativeCerts else roots
    let extra ← collectRoots lib b.extraRootsDer b.extraRootsPem
    let roots ← addAll roots extra
    .ok (.webpki roots)

def clientAuth (b : RustlsProviderBuilder lib) :
    Except BoltError (Option (List Cert × lib.PrivateKey)) :=
  match b.identity with
  | some (certPem, keyPem) => do
    let certs ← pemCerts lib certPem "client cert"
    let key ← (lib.privateKey keyPem).mapError fun e => .tls ("invalid client key: " ++ e)
    match key with
    | none => .error (.tls "no private key in PEM")
    | some key => do
      (lib.clientAuth certs key).mapError fun e => .tls ("client identity rejected: " ++ e)
      .ok (some (certs, key))
  | none => .ok none

def build (b : RustlsProviderBuilder lib) : Except BoltError (RustlsProvider lib) := do
  lib.versions.mapError fun e => .tls ("ring provider unusable: " ++ e)
  let verifier ← b.verifier
  let identity ← b.clientAuth
  .ok ⟨⟨verifier, identity⟩⟩

def roots (b : RustlsProviderBuilder lib) : lib.RootCertStore :=
  let base := b.rootStore.getD lib.webpkiRoots
  let base := if b.nativeRoots then addUsable base lib.nativeCerts else base
  addUsable base (b.extraRootsDer ++
    b.extraRootsPem.flatMap fun pem => (lib.certs pem).filterMap Except.toOption)

/-- From most to least specific: anything, the pinned certificates, or the roots. -/
def Trusts (b : RustlsProviderBuilder lib) (p : Presented) (name : lib.ServerName) : Prop :=
  if b.acceptInvalid then True
  else if b.pinsDer ≠ [] ∨ b.pinsPem ≠ [] then
    p.endEntity ∈ b.pinsDer ∨ ∃ pem ∈ b.pinsPem, .ok p.endEntity ∈ lib.certs pem
  else lib.verifyChain b.roots p name = .ok ()

theorem mapM_id_eq_ok {ε α : Type} {xs : List (Except ε α)} {as : List α}
    (h : xs.mapM id = .ok as) : xs = as.map .ok := by
  induction xs generalizing as with
  | nil =>
    cases h
    rfl
  | cons x xs ih =>
    rw [List.mapM_cons] at h
    obtain ⟨a, hx, h⟩ := except_bind_eq_ok h
    obtain ⟨as', has, h⟩ := except_bind_eq_ok h
    cases h
    rw [ih has, List.map_cons]
    exact congrArg (· :: _) hx

theorem pemCerts_eq_ok {pem : List UInt8} {what : String} {certs : List Cert}
    (h : pemCerts lib pem what = .ok certs) : lib.certs pem = certs.map .ok :=
  mapM_id_eq_ok (mapError_eq_ok h)

/-- The pins of every PEM are added, and none is without. -/
theorem collectPins_eq_ok {pins pins' : List Cert} {pems : List (List UInt8)}
    (h : collectPins lib pins pems = .ok pins') :
    (∀ cert, cert ∈ pins' ↔ cert ∈ pins ∨
      ∃ pem ∈ pems, .ok cert ∈ lib.certs pem) ∧
    (pins' ≠ [] ↔ pins ≠ [] ∨ pems ≠ []) := by
  induction pems generalizing pins with
  | nil =>
    cases h
    simp
  | cons pem pems ih =>
    obtain ⟨certs, hcerts, h⟩ := except_bind_eq_ok h
    have hpem := pemCerts_eq_ok hcerts
    change (if (pins ++ certs).length = pins.length then _ else _) = _ at h
    split_ifs at h with hlen
    obtain ⟨hmem, hne⟩ := ih h
    have hcert : certs ≠ [] := by
      rintro rfl
      simp at hlen
    constructor
    · intro cert
      rw [hmem, List.mem_append, List.exists_mem_cons_iff, hpem, or_assoc]
      simp
    · rw [hne]
      simp [hcert]

theorem collectRoots_eq_ok {extra extra' : List Cert} {pems : List (List UInt8)}
    (h : collectRoots lib extra pems = .ok extra') :
    extra' = extra ++ pems.flatMap fun pem => (lib.certs pem).filterMap Except.toOption := by
  induction pems generalizing extra with
  | nil =>
    cases h
    simp
  | cons pem pems ih =>
    obtain ⟨certs, hcerts, h⟩ := except_bind_eq_ok h
    have hpem : (certs.map Except.ok : List (Except String Cert)).filterMap Except.toOption =
        certs := by
      rw [List.filterMap_map]
      exact List.filterMap_some
    rw [ih h, List.flatMap_cons, pemCerts_eq_ok hcerts, hpem, List.append_assoc]

theorem addAll_eq_ok {roots roots' : lib.RootCertStore} {certs : List Cert}
    (h : addAll roots certs = .ok roots') : roots' = addUsable roots certs := by
  induction certs generalizing roots with
  | nil =>
    cases h
    rfl
  | cons cert certs ih =>
    obtain ⟨roots₁, hadd, h⟩ := except_bind_eq_ok h
    rw [ih h, addUsable, addUsable, List.foldl_cons, mapError_eq_ok hadd]
    rfl

theorem verifier_trusts {b : RustlsProviderBuilder lib} {v : Verifier lib} (h : b.verifier = .ok v)
    (p : Presented) (name : lib.ServerName) :
    v.verifyServerCert p name = .ok () ↔ b.Trusts p name := by
  obtain ⟨pins, hpins, h⟩ := except_bind_eq_ok h
  obtain ⟨hmem, hne⟩ := collectPins_eq_ok hpins
  unfold Trusts
  by_cases hany : b.acceptInvalid = true
  · rw [if_pos hany] at h ⊢
    cases h
    exact ⟨fun _ => trivial, fun _ => rfl⟩
  · rw [if_neg hany] at h ⊢
    by_cases hsome : pins ≠ []
    · rw [if_pos hsome] at h
      rw [if_pos (hne.mp hsome), ← hmem]
      cases h
      rw [Verifier.verifyServerCert]
      split_ifs with hp <;> simp [hp]
    · rw [if_neg hsome] at h
      rw [if_neg fun hpinned => hsome (hne.mpr hpinned)]
      obtain ⟨extra, hextra, h⟩ := except_bind_eq_ok h
      obtain ⟨roots', hroots, h⟩ := except_bind_eq_ok h
      cases h
      rw [Verifier.verifyServerCert, addAll_eq_ok hroots, collectRoots_eq_ok hextra]
      rfl

/-- What the verifier of a provider accepts. -/
theorem build_trusts {b : RustlsProviderBuilder lib} {provider : RustlsProvider lib}
    (h : b.build = .ok provider) (p : Presented) (name : lib.ServerName) :
    provider.connector.verifier.verifyServerCert p name = .ok () ↔ b.Trusts p name := by
  obtain ⟨-, -, h⟩ := except_bind_eq_ok h
  obtain ⟨v, hv, h⟩ := except_bind_eq_ok h
  obtain ⟨identity, -, h⟩ := except_bind_eq_ok h
  cases h
  exact verifier_trusts hv p name

end RustlsProviderBuilder

inductive BuilderCall (lib : Rustls)
  | addRootPem (pem : List UInt8)
  | addRootDer (der : Cert)
  | withRootStore (roots : lib.RootCertStore)
  | pinCertificatePem (pem : List UInt8)
  | pinCertificateDer (der : Cert)
  | dangerAcceptInvalidCerts (accept : Bool)
  | useNativeRoots
  | clientIdentity (certChainPem keyPem : List UInt8)

namespace BuilderCall

def apply (b : RustlsProviderBuilder lib) : BuilderCall lib → RustlsProviderBuilder lib
  | addRootPem pem => b.addRootPem pem
  | addRootDer der => b.addRootDer der
  | withRootStore roots => b.withRootStore roots
  | pinCertificatePem pem => b.pinCertificatePem pem
  | pinCertificateDer der => b.pinCertificateDer der
  | dangerAcceptInvalidCerts accept => b.dangerAcceptInvalidCerts accept
  | useNativeRoots => b.useNativeRoots
  | clientIdentity certChainPem keyPem => b.clientIdentity certChainPem keyPem

def rootPem? : BuilderCall lib → Option (List UInt8)
  | addRootPem pem => some pem
  | _ => none

def rootDer? : BuilderCall lib → Option Cert
  | addRootDer der => some der
  | _ => none

def rootStore? : BuilderCall lib → Option lib.RootCertStore
  | withRootStore roots => some roots
  | _ => none

def pinPem? : BuilderCall lib → Option (List UInt8)
  | pinCertificatePem pem => some pem
  | _ => none

def pinDer? : BuilderCall lib → Option Cert
  | pinCertificateDer der => some der
  | _ => none

def acceptInvalid? : BuilderCall lib → Option Bool
  | dangerAcceptInvalidCerts accept => some accept
  | _ => none

def nativeRoots? : BuilderCall lib → Option Bool
  | useNativeRoots => some true
  | _ => none

end BuilderCall

section Calls
open RustlsProviderBuilder BuilderCall

def built (calls : List (BuilderCall lib)) : RustlsProviderBuilder lib := calls.foldl apply default

def lastSet {α : Type} (set : BuilderCall lib → Option α) (calls : List (BuilderCall lib)) :
    Option α :=
  (calls.filterMap set).getLast?

/-- The base roots that were set last, or webpki's, with the native ones if asked for and
every one that was added. -/
def rootsOf (calls : List (BuilderCall lib)) : lib.RootCertStore :=
  let base := (lastSet rootStore? calls).getD lib.webpkiRoots
  let base := if (lastSet nativeRoots? calls).getD false then addUsable base lib.nativeCerts
    else base
  addUsable base (calls.filterMap rootDer? ++
    (calls.filterMap rootPem?).flatMap fun pem => (lib.certs pem).filterMap Except.toOption)

/-- Which servers the calls say are to be trusted. -/
inductive Trusted (calls : List (BuilderCall lib)) (p : Presented) (name : lib.ServerName) : Prop
  | anything : lastSet acceptInvalid? calls = some true → Trusted calls p name
  | pinnedDer : lastSet acceptInvalid? calls ≠ some true →
      .pinCertificateDer p.endEntity ∈ calls → Trusted calls p name
  | pinnedPem {pem : List UInt8} : lastSet acceptInvalid? calls ≠ some true →
    .pinCertificatePem pem ∈ calls → .ok p.endEntity ∈ lib.certs pem → Trusted calls p name
  | chain : lastSet acceptInvalid? calls ≠ some true →
    (∀ call ∈ calls, call.pinDer? = none ∧ call.pinPem? = none) →
    lib.verifyChain (rootsOf calls) p name = .ok () → Trusted calls p name

theorem foldl_lastSet {α : Type} (f : RustlsProviderBuilder lib → α)
    (set : BuilderCall lib → Option α)
    (h : ∀ b call, f (apply b call) = (set call).getD (f b)) (calls : List (BuilderCall lib))
    (b : RustlsProviderBuilder lib) : f (calls.foldl apply b) = (lastSet set calls).getD (f b) := by
  induction calls generalizing b with
  | nil => rfl
  | cons call calls ih =>
    rw [List.foldl_cons, ih, h, lastSet, lastSet, List.filterMap_cons]
    cases hset : set call with
    | none => rfl
    | some a => simp [List.getLast?_cons]

theorem foldl_filterMap {α : Type} (f : RustlsProviderBuilder lib → List α)
    (add : BuilderCall lib → Option α)
    (h : ∀ b call, f (apply b call) = f b ++ (add call).toList)
    (calls : List (BuilderCall lib)) (b : RustlsProviderBuilder lib) :
    f (calls.foldl apply b) = f b ++ calls.filterMap add := by
  induction calls generalizing b with
  | nil => simp
  | cons call calls ih =>
    rw [List.foldl_cons, ih, h, List.filterMap_cons, List.append_assoc]
    cases add call <;> rfl

theorem lists_built (calls : List (BuilderCall lib)) :
    (built calls).extraRootsDer = calls.filterMap rootDer? ∧
    (built calls).extraRootsPem = calls.filterMap rootPem? ∧
    (built calls).pinsDer = calls.filterMap pinDer? ∧
    (built calls).pinsPem = calls.filterMap pinPem? := by
  refine ⟨foldl_filterMap extraRootsDer rootDer? ?_ calls default,
    foldl_filterMap extraRootsPem rootPem? ?_ calls default,
    foldl_filterMap pinsDer pinDer? ?_ calls default,
    foldl_filterMap pinsPem pinPem? ?_ calls default⟩
  all_goals
    intro b call
    cases call <;> first | rfl | exact (List.append_nil _).symm

theorem acceptInvalid_built (calls : List (BuilderCall lib)) :
    (built calls).acceptInvalid = (lastSet acceptInvalid? calls).getD false := by
  apply foldl_lastSet acceptInvalid acceptInvalid?
  intro b call
  cases call <;> rfl

theorem roots_built (calls : List (BuilderCall lib)) : (built calls).roots = rootsOf calls := by
  have hstore : (built calls).rootStore.getD lib.webpkiRoots =
      (lastSet rootStore? calls).getD lib.webpkiRoots := by
    apply foldl_lastSet (fun b => b.rootStore.getD lib.webpkiRoots) rootStore?
    intro b call
    cases call <;> rfl
  have hnative : (built calls).nativeRoots = (lastSet nativeRoots? calls).getD false := by
    apply foldl_lastSet nativeRoots nativeRoots?
    intro b call
    cases call <;> rfl
  obtain ⟨hder, hpem, -⟩ := lists_built calls
  rw [roots, hstore, hnative, hder, hpem]
  rfl

theorem mem_filterMap_pinDer {calls : List (BuilderCall lib)} {der : Cert} :
    der ∈ calls.filterMap pinDer? ↔ .pinCertificateDer der ∈ calls := by
  rw [List.mem_filterMap]
  constructor
  · rintro ⟨call, hcall, h⟩
    cases call <;> cases h
    exact hcall
  · exact fun h => ⟨_, h, rfl⟩

theorem mem_filterMap_pinPem {calls : List (BuilderCall lib)} {pem : List UInt8} :
    pem ∈ calls.filterMap pinPem? ↔ .pinCertificatePem pem ∈ calls := by
  rw [List.mem_filterMap]
  constructor
  · rintro ⟨call, hcall, h⟩
    cases call <;> cases h
    exact hcall
  · exact fun h => ⟨_, h, rfl⟩

/-- The builder trusts whom its calls name. -/
theorem trusts_built (calls : List (BuilderCall lib)) (p : Presented) (name : lib.ServerName) :
    (built calls).Trusts p name ↔ Trusted calls p name := by
  obtain ⟨-, -, hder, hpem⟩ := lists_built calls
  have hany : (lastSet acceptInvalid? calls).getD false = true ↔
      lastSet acceptInvalid? calls = some true := by
    cases lastSet acceptInvalid? calls <;> simp
  rw [Trusts, acceptInvalid_built, hder, hpem, roots_built]
  constructor
  · intro h
    split_ifs at h with ha hp
    · exact .anything (hany.mp ha)
    · rcases h with h | ⟨pem, hmem, h⟩
      · exact .pinnedDer (mt hany.mpr ha) (mem_filterMap_pinDer.mp h)
      · exact .pinnedPem (mt hany.mpr ha) (mem_filterMap_pinPem.mp hmem) h
    · rw [not_or, not_not, not_not, List.filterMap_eq_nil_iff, List.filterMap_eq_nil_iff] at hp
      exact .chain (mt hany.mpr ha) (fun call hcall => ⟨hp.1 call hcall, hp.2 call hcall⟩) h
  · intro h
    cases h with
    | anything ha =>
      rw [if_pos (hany.mpr ha)]
      trivial
    | pinnedDer ha hc =>
      have hmem := mem_filterMap_pinDer.mpr hc
      rw [if_neg (mt hany.mp ha), if_pos (.inl (List.ne_nil_of_mem hmem))]
      exact .inl hmem
    | pinnedPem ha hc hcert =>
      have hmem := mem_filterMap_pinPem.mpr hc
      rw [if_neg (mt hany.mp ha), if_pos (.inr (List.ne_nil_of_mem hmem))]
      exact .inr ⟨_, hmem, hcert⟩
    | chain ha hp hchain =>
      have hder' := List.filterMap_eq_nil_iff.mpr fun call hcall => (hp call hcall).1
      have hpem' := List.filterMap_eq_nil_iff.mpr fun call hcall => (hp call hcall).2
      rw [if_neg (mt hany.mp ha), if_neg (by simp [hder', hpem'])]
      exact hchain

/-- Whatever calls are made, in whatever order: a provider that is built accepts exactly
the servers they say are to be trusted. -/
theorem trusted_as_called (calls : List (BuilderCall lib)) {provider : RustlsProvider lib}
    (h : (built calls).build = .ok provider) (p : Presented) (name : lib.ServerName) :
    provider.connector.verifier.verifyServerCert p name = .ok () ↔ Trusted calls p name :=
  (build_trusts h p name).trans (trusts_built calls p name)

end Calls

/-- PEM blobs of at most one certificate, and chains that are a root by themselves. -/
def bareRustls : Rustls where
  RootCertStore := List Cert
  PrivateKey := List UInt8
  ServerName := String
  versions := .ok ()
  certs pem := if pem = [] then [] else [.ok pem]
  privateKey pem := .ok (if pem = [] then none else some pem)
  webpkiRoots := []
  nativeCerts := [[7]]
  add roots cert := .ok (roots ++ [cert])
  clientAuth _ _ := .ok ()
  serverName s := if s = "" then .error "invalid dns name" else .ok s
  verifyChain roots p _ :=
    if p.endEntity ∈ roots then .ok () else .error "invalid peer certificate: UnknownIssuer"
  debug s := "\"" ++ s ++ "\""

def rootAndPin : List (BuilderCall bareRustls) :=
  [.addRootDer [9], .dangerAcceptInvalidCerts true, .pinCertificatePem [2],
    .dangerAcceptInvalidCerts false]

theorem trusted_as_called_pinned : ∃ provider, (built rootAndPin).build = .ok provider ∧
    Trusted rootAndPin ⟨[2], [], [], 0⟩ "db" ∧
    ¬ Trusted rootAndPin ⟨[9], [], [], 0⟩ "db" := by
  refine ⟨_, rfl, (trusted_as_called rootAndPin rfl ⟨[2], [], [], 0⟩ "db").mp rfl, ?_⟩
  intro h
  have hverify := (trusted_as_called rootAndPin rfl ⟨[9], [], [], 0⟩ "db").mpr h
  cases hverify

/-- The TLS handshakes that rustls performs. -/
structure Connector (lib : Rustls) where
  /-- The far end of a TCP connection. -/
  Link : Type
  /-- `TlsConnector::connect`, and what was presented in a handshake that completes. -/
  connect : ClientConfig lib → lib.ServerName → Link → Except (ErrorKind × String) Presented
  /-- A handshake completes only if the verifier accepts what is presented. -/
  verified : ∀ {config : ClientConfig lib} {name : lib.ServerName} {link : Link} {p : Presented},
    connect config name link = .ok p → config.verifier.verifyServerCert p name = .ok ()

def RustlsProvider.connect (c : Connector lib) (provider : RustlsProvider lib) (serverName : String)
    (link : c.Link) : Except BoltError Presented := do
  let name ← (lib.serverName serverName).mapError fun e =>
    .tls ("invalid server name " ++ lib.debug serverName ++ ": " ++ e)
  (c.connect provider.connector name link).mapError fun e =>
    if e.1 = .invalidData then .tls ("handshake with " ++ serverName ++ ": " ++ e.2) else .io e.1

section Dial
variable (c : Connector lib) (negotiate : List UInt8 → List UInt8) (peer : Peer)

/-- The provider that the scheme of a URI asks for. -/
def provider (lib : Rustls) (tls : Tls) : Except BoltError (RustlsProvider lib) :=
  let builder := RustlsProviderBuilder.default
  (if tls = .acceptInvalid then builder.dangerAcceptInvalidCerts true
    else builder.useNativeRoots).build

/-- `dial` with TLS: `tcp` is how the TCP connection is made, `link` the far end of it. -/
def dialTls (d : Config.Dial) (tcp : Except BoltError Unit) (link : c.Link) (passed : Bool) :
    Setup.Op Unit := do
  let provider ← Future.ofExcept (provider lib d.tls)
  let dialled : Except BoltError Unit := do
    tcp
    let _ ← provider.connect c d.host link
    .ok ()
  Setup.connect negotiate peer dialled d.auth passed

def dial (d : Config.Dial) (tcp : Except BoltError Unit) (link : c.Link) (passed : Bool) :
    Setup.Op Unit :=
  match d.tls with
  | .off => Setup.connect negotiate peer tcp d.auth passed
  | .strict | .acceptInvalid => dialTls c negotiate peer d tcp link passed

/-- The handshake for `host` with the provider of this builder completed and presented `p`. -/
def Shaken (builder : RustlsProviderBuilder lib) (host : String) (link : c.Link)
    (name : lib.ServerName) (p : Presented) : Prop :=
  ∃ provider, builder.build = .ok provider ∧ lib.serverName host = .ok name ∧
    c.connect provider.connector name link = .ok p

/-- What has been verified of the server at `link` before it is told anything: with `+s`
its chain, against webpki's roots and the native ones; with `+ssc` that it can shake hands. -/
structure Guarded (scheme : Scheme) (host : String) (link : c.Link) : Prop where
  strict : scheme = .boltS ∨ scheme = .neo4jS → ∃ name p,
    Shaken c RustlsProviderBuilder.default.useNativeRoots host link name p ∧
    lib.verifyChain (RustlsProviderBuilder.addUsable lib.webpkiRoots lib.nativeCerts) p name =
      .ok ()
  selfSigned : scheme = .boltSsc ∨ scheme = .neo4jSsc → ∃ name p,
    Shaken c (RustlsProviderBuilder.default.dangerAcceptInvalidCerts true) host link name p

variable {c negotiate peer}

theorem nativeRoots_trusts {prov : RustlsProvider lib}
    (h : RustlsProviderBuilder.default.useNativeRoots.build = .ok prov) {p : Presented}
    {name : lib.ServerName} (hv : prov.connector.verifier.verifyServerCert p name = .ok ()) :
    lib.verifyChain (RustlsProviderBuilder.addUsable lib.webpkiRoots lib.nativeCerts) p name =
      .ok () :=
  (RustlsProviderBuilder.build_trusts h p name).mp hv

/-- Nothing is sent unless the handshake of the provider completed. -/
theorem dialTls_shaken {d : Config.Dial} {tcp : Except BoltError Unit} {link : c.Link}
    {passed : Bool} {sched : List Choice} {o : Outcome BoltError Unit} {s : Setup}
    (h : dialTls c negotiate peer d tcp link passed (.opened sched) = (o, s))
    (hsent : s ≠ .opened sched) : ∃ prov name p, provider lib d.tls = .ok prov ∧
      lib.serverName d.host = .ok name ∧ c.connect prov.connector name link = .ok p := by
  cases hprov : provider lib d.tls with
  | error e =>
    rw [dialTls, hprov] at h
    cases h
    exact absurd rfl hsent
  | ok prov =>
    rw [dialTls, hprov] at h
    cases tcp with
    | error e =>
      cases h
      exact absurd rfl hsent
    | ok _ =>
      cases hp : prov.connect c d.host link with
      | error e =>
        change Setup.connect negotiate peer (prov.connect c d.host link >>= fun _ => .ok ()) d.auth
          passed (.opened sched) = (o, s) at h
        rw [hp] at h
        cases h
        exact absurd rfl hsent
      | ok p =>
        obtain ⟨name, hname, hconnect⟩ := except_bind_eq_ok hp
        exact ⟨prov, name, p, rfl, mapError_eq_ok hname, mapError_eq_ok hconnect⟩

/-- What dialling with the settings of a URI, directly or for a server of the cluster,
tells the server of Bolt (the credentials are last) it tells one that has been verified as
the scheme demands, for the host of the URI or of the server's address. -/
theorem dial_tells_guarded {cfg : Config} {host : String} {d : Config.Dial}
    (hd : (cfg.connect = .ok d ∧ host = cfg.host) ∨ ∃ server port,
      cfg.routedConnect server = .ok d ∧ splitHostPort server = .ok (host, port))
    {tcp : Except BoltError Unit} {link : c.Link} {passed : Bool} {sched : List Choice}
    {o : Outcome BoltError Unit} {s : Setup}
    (h : dial c negotiate peer d tcp link passed (.opened sched) = (o, s))
    (hsent : s.greeting ≠ [] ∨ s.conn.stream.sent ≠ []) : Guarded c cfg.scheme host link := by
  have hdial : d.tls = cfg.scheme.tls ∧ d.host = host := by
    rcases hd with ⟨hd, rfl⟩ | ⟨server, port, hd, hsplit⟩
    · unfold Config.connect at hd
      split_ifs at hd
      cases hd
      exact ⟨rfl, rfl⟩
    · rw [Config.routedConnect, hsplit] at hd
      cases hd
      exact ⟨rfl, rfl⟩
  have hne : s ≠ .opened sched := by
    rintro rfl
    simp [Setup.opened] at hsent
  obtain ⟨htls, rfl⟩ := hdial
  refine ⟨fun hs => ?_, fun hs => ?_⟩
  · have hstrict : d.tls = .strict := by
      rw [htls]
      rcases hs with hs | hs <;> rw [hs] <;> rfl
    rw [dial, hstrict] at h
    obtain ⟨prov, name, p, hprov, hname, hconnect⟩ := dialTls_shaken h hne
    rw [hstrict] at hprov
    exact ⟨name, p, ⟨prov, hprov, hname, hconnect⟩,
      nativeRoots_trusts hprov (c.verified hconnect)⟩
  · have haccept : d.tls = .acceptInvalid := by
      rw [htls]
      rcases hs with hs | hs <;> rw [hs] <;> rfl
    rw [dial, haccept] at h
    obtain ⟨prov, name, p, hprov, hname, hconnect⟩ := dialTls_shaken h hne
    rw [haccept] at hprov
    exact ⟨name, p, prov, hprov, hname, hconnect⟩

end Dial

/-- Handshakes that fail only for what is presented, which is all there is of a server. -/
def bareConnector : Connector bareRustls where
  Link := Presented
  connect config name link :=
    match config.verifier.verifyServerCert link name with
    | .ok () => .ok link
    | .error e => .error (.invalidData, e)
  verified := by
    intro config name link p h
    cases hv : config.verifier.verifyServerCert link name with
    | ok _ =>
      rw [hv] at h
      cases h
      exact hv
    | error e =>
      rw [hv] at h
      cases h

def nativeServer : Presented := ⟨[7], [], [], 0⟩

def strictConfig : Config := ⟨.neo4jS, "seed", 7687, some (Auth.basic "neo4j" "secret"), none⟩

def strictDial : Config.Dial :=
  ⟨.strict, "[::1]:7687", "::1", some (Auth.basic "neo4j" "secret")⟩

def dialsStrict : Outcome BoltError Unit × Setup :=
  dial bareConnector obligingListener.negotiate obligingListener.peer strictDial (.ok ())
    nativeServer false (.opened (List.replicate 24 (.ready 1000)))

theorem dial_tells_guarded_strict : strictConfig.routedConnect "[::1]:7687" = .ok strictDial ∧
    dialsStrict.1.isOk = true ∧ ∃ name p,
      Shaken bareConnector RustlsProviderBuilder.default.useNativeRoots "::1"
      nativeServer name p ∧ bareRustls.verifyChain [[7]] p name = .ok () := by
  have hsplit : splitHostPort "[::1]:7687" = .ok ("::1", some 7687) := by decide +kernel
  have hd : strictConfig.routedConnect "[::1]:7687" = .ok strictDial := by
    rw [Config.routedConnect, hsplit]
    rfl
  have hok : dialsStrict.1.isOk = true := by decide +kernel
  have hsent : dialsStrict.2.greeting ≠ [] := by decide +kernel
  have hdials : dial bareConnector obligingListener.negotiate obligingListener.peer strictDial
      (.ok ()) nativeServer false (.opened (List.replicate 24 (.ready 1000))) =
      (dialsStrict.1, dialsStrict.2) := rfl
  have hguarded := dial_tells_guarded (.inr ⟨_, _, hd, hsplit⟩) hdials (.inl hsent)
  exact ⟨hd, hok, hguarded.strict (.inr rfl)⟩

end Boltwire
