import OptionChainBackend.Auth.RateLimiter

/-! What a token grants. -/
namespace OptionChainBackend
namespace Auth

inductive Permission where
  | read | trade | admin
  deriving DecidableEq, Repr

structure Claims where
  sub : String
  permissions : List Permission
  deriving DecidableEq, Repr

/-- Admin implies all. -/
def Claims.hasPermission (c : Claims) (p : Permission) : Bool :=
  p ∈ c.permissions || Permission.admin ∈ c.permissions

theorem Claims.hasPermission_of_not_admin {c : Claims} (h : .admin ∉ c.permissions)
    (p : Permission) : c.hasPermission p = true ↔ p ∈ c.permissions := by
  simp [hasPermission, h]

end Auth
end OptionChainBackend
