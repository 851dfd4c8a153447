import SqlDialect.Text.Bytes

set_option autoImplicit false

/-! # Stores of conversions

A converter may keep what statements were converted to. How the store decides what it keeps is not
the converter's business: it asks for a key, it adds a value, and relies on two facts only
(`LawfulCache`). What is found is what was last added for the key, and there is a bound on what is
kept. Both are said of the calls that a store has seen since it was new, so that a store may forget
whatever it likes, in whatever order. -/

namespace SqlDialect

/-- A store that keeps texts under keys. -/
class Cache (κ : Type) where
  /-- A new store that keeps so many keys. -/
  new : Nat → κ
  /-- The value of a key, if it is there. Being asked may change the store. -/
  get : κ → Bytes → Option Bytes × κ
  /-- Gives a key a value. -/
  add : κ → Bytes → Bytes → κ
  /-- The number of keys that are there. -/
  size : κ → Nat

/-- A call that a store has seen. -/
inductive CacheCall where
  | get (key : Bytes)
  | add (key value : Bytes)
deriving Repr, DecidableEq

namespace CacheCall

/-- The value that calls last added for a key. -/
def lastAdded? (key : Bytes) (calls : List CacheCall) : Option Bytes :=
  calls.reverse.findSome? fun
    | .add key' value => if key' = key then some value else none
    | .get _ => none

end CacheCall

namespace Cache

variable {κ : Type} [Cache κ]

/-- The store after a call. -/
def call (m : κ) : CacheCall → κ
  | .get key => (get m key).2
  | .add key value => add m key value

/-- The store after some calls. -/
def calls (m : κ) (l : List CacheCall) : κ :=
  l.foldl call m

end Cache

/-- What a converter relies on, for every new store with room for a key and all calls to it. -/
class LawfulCache (κ : Type) [Cache κ] : Prop where
  /-- A look-up gives nothing or the value that was last added for the key. -/
  get_calls {size : Nat} (hsize : 0 < size) (l : List CacheCall) (key value : Bytes)
    (h : (Cache.get (Cache.calls (Cache.new size : κ) l) key).1 = some value) :
    CacheCall.lastAdded? key l = some value
  /-- No more keys are kept than there is room for. -/
  size_calls {size : Nat} (hsize : 0 < size) (l : List CacheCall) :
    Cache.size (Cache.calls (Cache.new size : κ) l) ≤ size

end SqlDialect
