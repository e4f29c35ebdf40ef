import Mathlib.Algebra.Group.Nat.Defs

/-! # What libuv keeps

The part of libuv's state that the classes share: the life of a tcp handle, timers, addresses,
and `uv_buf_t`, whose constructor takes its length as an `unsigned int`.
-/

namespace UvWrapper

/-- The life of the memory of a `uv_tcp_t`, as libuv sees it. -/
inductive TcpState
  | raw | inited | connecting | connected | refused | closing | closed
  deriving DecidableEq, Repr

/-- A handle that libuv holds and that `uv_close` has not been called on. -/
def TcpState.isOpen : TcpState → Bool
  | .inited | .connecting | .connected | .refused => true
  | .raw | .closing | .closed => false

/-- A `uv_timer_t`: memory that was not initialised, which holds some bit where libuv keeps
whether the timer is active, or a timer with its repeat value. -/
inductive UvTimer
  | raw (bit : Bool)
  | inited (active : Bool) (period : ℕ)
  deriving DecidableEq, Repr

def UvTimer.active : UvTimer → Bool
  | .raw _ => false
  | .inited active _ => active

def UvTimer.period : UvTimer → ℕ
  | .raw _ => 0
  | .inited _ period => period

abbrev Sockaddr := String × ℕ

def uint (n : ℕ) : ℕ := n % 2 ^ 32

/-- Unsigned subtraction in `unsigned int`, for values that fit. -/
def uintSub (a b : ℕ) : ℕ := uint (a + (2 ^ 32 - b))

/-- `uv_buf_t`; the base is the address of a block, or null. -/
structure UvBuf where
  base : Option ℕ
  len : ℕ
  deriving DecidableEq

def uvBufInit (base : Option ℕ) (len : ℕ) : UvBuf := ⟨base, uint len⟩

end UvWrapper
