import SecureLayout.Failure

/-!
Settings of the relay. Main statement: accepted settings ping often enough that a live connection is
never taken for an idle one.
-/

namespace SecureLayout.Config

structure ServerSettings where
  /-- Where the relay listens. -/
  listen : String := "0.0.0.0:8090"
  /-- Milliseconds between two pings. -/
  pingInterval : Nat := 20000
  /-- Milliseconds without a frame after which a connection is closed. -/
  idleTimeout : Nat := 60000
  deriving DecidableEq, Repr

namespace ServerSettings

def validate (s : ServerSettings) : Result Unit :=
  if s.pingInterval < 5000 || 120000 < s.pingInterval then
    .error (.badRequest "server.ping_interval_ms must be between 5000 and 120000")
  else if s.idleTimeout < 10000 || 600000 < s.idleTimeout then
    .error (.badRequest "server.idle_timeout_ms must be between 10000 and 600000")
  else if s.idleTimeout ≤ s.pingInterval then
    .error (.badRequest "server.idle_timeout_ms must be greater than ping_interval_ms")
  else .ok ()

theorem validate_ok_iff (s : ServerSettings) :
    s.validate = .ok () ↔ 5000 ≤ s.pingInterval ∧ s.pingInterval ≤ 120000 ∧
      10000 ≤ s.idleTimeout ∧ s.idleTimeout ≤ 600000 ∧ s.pingInterval < s.idleTimeout := by
  unfold validate
  split
  · next h =>
    simp only [Bool.or_eq_true, decide_eq_true_eq] at h
    simp
    omega
  · next h =>
    simp only [Bool.or_eq_true, decide_eq_true_eq] at h
    split
    · next h' =>
      simp only [Bool.or_eq_true, decide_eq_true_eq] at h'
      simp
      omega
    · next h' =>
      simp only [Bool.or_eq_true, decide_eq_true_eq] at h'
      split
      · simp
        omega
      · simp
        omega

end ServerSettings

end SecureLayout.Config
