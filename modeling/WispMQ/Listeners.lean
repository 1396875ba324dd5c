import WispMQ.Precedence
/-!
# Turning listeners off

A listener at port 0 is off, which is how a layer takes back the address that one below it supplies (config.rs:213-217). The
check of the certificates comes after that, and a certificate without its listener is an error (config.rs:862, 875).

| here | there |
| --- | --- |
| `Listener`        | the four addresses that `normalize` goes through |
| `Cli.with`        | the flag of a listener |
| `fromCli_run_iff` | what it takes to be accepted |
| `off_iff`         | port 0 turns a listener off unless some layer supplies its certificate |
-/

namespace WispMQ.Configuration
open Layered

inductive Listener where
  | plain | tls | ws | wsTls
deriving DecidableEq

/-- The options that need the listener. -/
def Listener.certificate : Listener → List Field
  | plain => []
  | tls => [.tlsCert, .tlsKey]
  | ws => []
  | wsTls => [.wsTlsCert, .wsTlsKey]

def Config.set (cfg : Config) (addr : Option SocketAddr) : Listener → Config
  | .plain => { cfg with listenAddr := addr }
  | .tls => { cfg with tlsListenAddr := addr }
  | .ws => { cfg with wsListenAddr := addr }
  | .wsTls => { cfg with wsTlsListenAddr := addr }

def Cli.with (cli : Cli) (addr : SocketAddr) : Listener → Cli
  | .plain => { cli with listenAddr := some addr }
  | .tls => { cli with tlsListenAddr := some addr }
  | .ws => { cli with wsListenAddr := some addr }
  | .wsTls => { cli with wsTlsListenAddr := some addr }

section
variable {L : Parsers} {P : Protocol} {host : Host} {cli : Cli} {cfg : Config}

theorem apply_with (addr : SocketAddr) (l : Listener) : (cli.with addr l).apply cfg = (cli.apply cfg).set (some addr) l := by
  cases l <;> rfl

theorem fromFile_with (addr : SocketAddr) (l : Listener) : fromFile L P host (cli.with addr l) = fromFile L P host cli := by
  cases l <;> rfl

theorem layered_with {addr : SocketAddr} {l : Listener} (h : layered L P host cli = .ok cfg) :
    layered L P host (cli.with addr l) = .ok (cfg.set (some addr) l) := by
  obtain ⟨c, hc, h⟩ := bind_ok.1 h
  obtain rfl := Except.ok.inj h
  exact bind_ok.2 ⟨c, (fromFile_with addr l).trans hc, congrArg Except.ok (apply_with addr l)⟩

theorem normalize_set {addr : SocketAddr} (hport : addr.port = 0) (l : Listener) :
    normalize (cfg.set (some addr) l) = (normalize cfg).set none l := by
  cases l <;> simp [normalize, normalizeAddr, Config.set, hport]

/-! ## What is accepted -/

/-- A TLS listener has both halves of a certificate if it is on, and neither if it is off. -/
def TlsComplete (addr : Option SocketAddr) (cert key : Option String) : Prop :=
  cert.isSome = addr.isSome ∧ key.isSome = addr.isSome

theorem validateTls_ok_iff {listener : String} {addr : Option SocketAddr} {cert key : Option String} :
    validateTls listener addr cert key = .ok () ↔ TlsComplete addr cert key := by
  cases addr <;> cases cert <;> cases key <;> simp [validateTls, TlsComplete, fail]

theorem validate_ok_iff :
    validate cfg = .ok () ↔
      TlsComplete cfg.tlsListenAddr cfg.tlsCert cfg.tlsKey ∧ TlsComplete cfg.wsTlsListenAddr cfg.wsTlsCert cfg.wsTlsKey := by
  rw [validate, bind_ok, ← validateTls_ok_iff, ← validateTls_ok_iff]
  exact ⟨fun ⟨_, h, h'⟩ => ⟨h, h'⟩, fun ⟨h, h'⟩ => ⟨(), h, h'⟩⟩

theorem fromCli_run_iff {c : Config} :
    fromCli L P host cli = .ok (.run c) ↔
      cli.hashPassword = none ∧ ∃ cfg, layered L P host cli = .ok cfg ∧ normalize cfg = c ∧ validate c = .ok () := by
  unfold fromCli
  cases hhash : cli.hashPassword with
  | some user => simp
  | none =>
    simp only [bind_ok, true_and]
    constructor
    · rintro ⟨cfg, hcfg, ⟨⟩, hvalid, h⟩
      cases Except.ok.inj h
      exact ⟨cfg, hcfg, rfl, hvalid⟩
    · rintro ⟨cfg, hcfg, rfl, hvalid⟩
      exact ⟨cfg, hcfg, (), hvalid, rfl⟩

theorem get_normalize {f : Field} {l : Listener} (hf : f ∈ l.certificate) : (normalize cfg).get f = cfg.get f := by
  cases l <;> simp only [Listener.certificate, List.mem_cons, List.not_mem_nil, or_false] at hf
  all_goals rcases hf with rfl | rfl <;> rfl

/-- No certificate is among the defaults: it is what the layers supply. -/
theorem certificate_none_iff {c : Config} (h : fromCli L P host cli = .ok (.run c)) (l : Listener) :
    (∀ f ∈ l.certificate, c.get f = none) ↔ ∀ f ∈ l.certificate, ∀ m ∈ layers L P host cli, m f = none := by
  obtain ⟨-, cfg, hcfg, rfl, -⟩ := fromCli_run_iff.1 h
  refine forall₂_congr fun f hf => ?_
  have hdefault : ({} : Config).get f = none := by
    rw [← get_normalize hf]
    cases l <;> simp only [Listener.certificate, List.mem_cons, List.not_mem_nil, or_false] at hf
    all_goals rcases hf with rfl | rfl <;> rfl
  rw [get_normalize hf, layered_get hcfg, overlay, hdefault, Option.or_none, stack_eq_none_iff]

/-- Without a listener the configuration is still in order, if nothing needs the listener. -/
theorem validate_set_iff {l : Listener} (h : validate cfg = .ok ()) :
    validate (cfg.set none l) = .ok () ↔ ∀ f ∈ l.certificate, cfg.get f = none := by
  rw [validate_ok_iff] at h ⊢
  cases l with
  | plain => simpa [Config.set, Listener.certificate] using h
  | tls => simpa [Config.set, Listener.certificate, TlsComplete, Config.get] using fun _ _ => h.2
  | ws => simpa [Config.set, Listener.certificate] using h
  | wsTls => simpa [Config.set, Listener.certificate, TlsComplete, Config.get] using fun _ _ => h.1

/-- **Port 0** turns a listener of an accepted configuration off, and changes nothing else, if and only if no layer supplies
a certificate for it. -/
theorem off_iff {c : Config} (h : fromCli L P host cli = .ok (.run c)) (l : Listener) :
    (∀ addr : SocketAddr, addr.port = 0 → fromCli L P host (cli.with addr l) = .ok (.run (c.set none l))) ↔
      ∀ f ∈ l.certificate, ∀ m ∈ layers L P host cli, m f = none := by
  rw [← certificate_none_iff h]
  obtain ⟨hhash, cfg, hcfg, rfl, hvalid⟩ := fromCli_run_iff.1 h
  rw [← validate_set_iff hvalid]
  constructor
  · intro hoff
    exact (fromCli_run_iff.1 (hoff ⟨[0, 0, 0, 0], 0⟩ rfl)).2.choose_spec.2.2
  · intro hv addr hport
    refine fromCli_run_iff.2 ⟨?_, cfg.set (some addr) l, layered_with hcfg, normalize_set hport l, hv⟩
    rw [← hhash]
    cases l <;> rfl

end

/-- The address that turns a listener off. -/
def portZero : SocketAddr := ⟨[0, 0, 0, 0], 0⟩

/-- No config file, and a TLS listener in the environment. -/
def tlsHost : Host where
  env
    | "MQTT_TLS_LISTEN_ADDR" => some "0.0.0.0:8883"
    | "MQTT_TLS_CERT" => some "server.pem"
    | "MQTT_TLS_KEY" => some "server.key"
    | _ => none
  isFile _ := false
  readToString _ := none

/-- What starts from it. -/
def tlsConfig : Config where
  tlsListenAddr := some ⟨[0, 0, 0, 0], 8883⟩
  tlsCert := some "server.pem"
  tlsKey := some "server.key"

/-- The plain listener is turned off, and the WebSocket listener over TLS, for which there is no certificate. -/
theorem off_plain :
    fromCli exampleParsers Protocol.reference tlsHost (({} : Cli).with portZero .plain) =
        .ok (.run (tlsConfig.set none .plain)) ∧
      fromCli exampleParsers Protocol.reference tlsHost (({} : Cli).with portZero .wsTls) =
        .ok (.run (tlsConfig.set none .wsTls)) := by
  have h : fromCli exampleParsers Protocol.reference tlsHost {} = .ok (.run tlsConfig) := rfl
  refine ⟨(off_iff h .plain).2 (fun _ hf => absurd hf List.not_mem_nil) portZero rfl, (off_iff h .wsTls).2 ?_ portZero rfl⟩
  have hcert : ∀ f ∈ Listener.wsTls.certificate, ∀ m ∈ layers exampleParsers Protocol.reference tlsHost {},
      (m f).isNone := by
    decide
  exact fun f hf m hm => Option.isNone_iff_eq_none.1 (hcert f hf m hm)

/-- Port 0 for the TLS listener is an error: its certificate is still there. -/
theorem off_tls :
    fromCli exampleParsers Protocol.reference tlsHost {} = .ok (.run tlsConfig) ∧
      fromCli exampleParsers Protocol.reference tlsHost (({} : Cli).with portZero .tls) =
        .error (.error (.unusedCertificate "tls_listen_addr")) :=
  ⟨rfl, rfl⟩

end WispMQ.Configuration
