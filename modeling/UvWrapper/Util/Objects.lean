import UvWrapper.Lib.System
import UvWrapper.Util.SafeBuffer

/-! # Buffers as objects

The constructors, the assignment and `swap` of `safebuffer`, and any number of buffers that
are made, used and destroyed in any order. A field that a constructor does not initialise
holds what its memory held, which is a parameter.
-/

namespace UvWrapper

open Function Memory Transition

namespace Safebuffer

def construct (bufflen : ℕ) (ma : Answer) : Option Safebuffer :=
  (malloc ma bufflen).map fun blk =>
    { pbuffer := some { blk with bytes := memset blk.bytes 0 0 bufflen }
      bufferlen := bufflen
      datalen := 0
      offset := 0 }

theorem create_eq (ma : Answer) : create ma = construct defaultBufferLen ma := rfl

/-- The copy constructor; it does not initialise `m_offset`. -/
def copy (other : Safebuffer) (junk : ℕ) (ma : Answer) : Option Safebuffer :=
  (malloc ma other.bufferlen).map fun blk =>
    { pbuffer := some { blk with
        bytes := memcpy (memset blk.bytes 0 0 other.bufferlen) 0 other.contents }
      bufferlen := other.bufferlen
      datalen := other.datalen
      offset := junk }

/-- The constructor from memory; it does not initialise `m_offset`. -/
def ofMem (w : ℕ) (mem : List UInt8) (junk : ℕ) (ma : Answer) : Option Safebuffer :=
  (malloc ma (roundUp w mem.length)).map fun blk =>
    { pbuffer := some { blk with
        bytes := memcpy (memset blk.bytes 0 0 (roundUp w mem.length)) 0 mem }
      bufferlen := roundUp w mem.length
      datalen := mem.length
      offset := junk }

/-- The value of `m_pbuffer`; the null pointer is `none`. -/
def addr (b : Safebuffer) : Option ℕ := b.pbuffer.map Block.addr

/-- `operator=`. What `readmem` returns is dropped. -/
def assign (w : ℕ) (b other : Safebuffer) (ma re : Answer) : Option Safebuffer :=
  if other.addr = b.addr then some b
  else
    let ready :=
      match b.pbuffer with
      | none =>
        (malloc ma other.bufferlen).map fun blk =>
          { b with pbuffer := some blk, datalen := 0, bufferlen := other.bufferlen }
      | some _ => some (if b.datalen ≠ 0 then { b.clearMem with datalen := 0 } else b)
    ready.bind fun b₁ => (b₁.readmem w other.contents ma re).map Prod.fst

/-- `swap`: the object it is called on and `other`, afterwards. -/
def swap (b other : Safebuffer) : Safebuffer × Safebuffer :=
  let ptemp := other.pbuffer
  let other := { other with pbuffer := b.pbuffer }
  let b := { b with pbuffer := ptemp }
  let temp := other.bufferlen
  let other := { other with bufferlen := b.bufferlen }
  let b := { b with bufferlen := temp }
  -- `temp` is set to `other.m_datalen` here and read no more
  let other := { other with datalen := b.datalen }
  let b := { b with datalen := other.datalen }
  (b, other)

def stepOffset (w : ℕ) (b : Safebuffer) (step : ℕ) : Safebuffer :=
  { b with offset := ulong w (b.offset + step) }

inductive Call
  | readmem (mem : List UInt8) (ma re : Answer)
  | resize (len : ℕ) (re : Answer)
  | clearMem
  | stepOffset (step : ℕ)
  | assign (other : Safebuffer) (ma re : Answer)

def call (w : ℕ) (b : Safebuffer) : Call → Option (Safebuffer × Option Bool)
  | .readmem mem ma re => (b.readmem w mem ma re).map fun p => (p.1, some p.2)
  | .resize len re => some ((b.resize w len re).1, some (b.resize w len re).2)
  | .clearMem => some (b.clearMem, none)
  | .stepOffset step => some (b.stepOffset w step, none)
  | .assign other ma re => (b.assign w other ma re).map fun b' => (b', none)

end Safebuffer

abbrev Buffers := ℕ → Option Safebuffer

structure Returned where
  buffer : ℕ
  ok : Bool
  deriving DecidableEq

namespace Buffers

inductive Op
  | construct (i bufflen : ℕ) (ma : Answer)
  | copy (i j junk : ℕ) (ma : Answer)
  | ofMem (i : ℕ) (mem : List UInt8) (junk : ℕ) (ma : Answer)
  | readmem (i : ℕ) (mem : List UInt8) (ma re : Answer)
  | resize (i len : ℕ) (re : Answer)
  | clearMem (i : ℕ)
  | stepOffset (i step : ℕ)
  | assign (i j : ℕ) (ma re : Answer)
  | swap (i j : ℕ)
  | destroy (i : ℕ)

/-- A constructor's result takes a name that is free. -/
def make (s : Buffers) (i : ℕ) (b : Option Safebuffer) : Option (Buffers × List Returned) :=
  if (s i).isSome then none else b.map fun b => (update s i (some b), [])

def use (w : ℕ) (s : Buffers) (i : ℕ) (c : Safebuffer.Call) :
    Option (Buffers × List Returned) :=
  (s i).bind fun b => (b.call w c).map fun p =>
    (update s i (some p.1), (p.2.map (Returned.mk i)).toList)

def step (w : ℕ) (s : Buffers) : Op → Option (Buffers × List Returned)
  | .construct i bufflen ma => s.make i (Safebuffer.construct bufflen ma)
  | .copy i j junk ma => s.make i ((s j).bind fun b => b.copy junk ma)
  | .ofMem i mem junk ma => s.make i (Safebuffer.ofMem w mem junk ma)
  | .readmem i mem ma re => s.use w i (.readmem mem ma re)
  | .resize i len re => s.use w i (.resize len re)
  | .clearMem i => s.use w i .clearMem
  | .stepOffset i n => s.use w i (.stepOffset n)
  | .assign i j ma re => (s j).bind fun c => s.use w i (.assign c ma re)
  | .swap i j =>
    (s i).bind fun b => (s j).map fun c =>
      (update (update s j (some (b.swap c).2)) i (some (b.swap c).1), [])
  | .destroy i => (s i).map fun _ => (update s i none, [])

end Buffers

def buffers (w : ℕ) : System Buffers Buffers.Op Returned where
  init s := s = fun _ => none
  step := Buffers.step w

end UvWrapper
