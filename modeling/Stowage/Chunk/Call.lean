import Stowage.Http.Message
import Stowage.Text.Quoted
/-!
# Stowage — calls to a chunk host

A chunk host takes payloads in pieces and hands them out in pieces. This module holds the two calls
it answers, its answers, and the ways in which a call fails.
-/

namespace Stowage.Chunk

structure StoreRequest where
  ref : String
  data : Bytes
  offset : Nat
  total : Nat
  isLast : Bool
deriving DecidableEq, Repr

/-- A request to read up to `length` bytes from `offset`. -/
structure GetRequest where
  ref : String
  offset : Nat
  length : Nat
deriving DecidableEq, Repr

/-- A window of a payload, with the size of the whole and whether the window ends it. -/
structure Window where
  data : Bytes
  total : Nat
  isLast : Bool
deriving DecidableEq, Repr

inductive Refusal where
  | aboveMaximum (total maximum : Nat)
  | beyondTotal (offset size total : Nat)
  | finalEndsEarly (stop total : Nat)
  | totalDiffers (total stored : Nat) (ref : String)
  | gap (offset stored : Nat) (ref : String)
  | incomplete (ref : String) (stored total : Nat)
  | beyondEnd (offset total : Nat)
deriving DecidableEq, Repr

def Refusal.message : Refusal → String
  | aboveMaximum total maximum => s!"total size {total} exceeds maximum payload {maximum}"
  | beyondTotal offset size total => s!"chunk [{offset}, +{size}) exceeds total size {total}"
  | finalEndsEarly stop total => s!"final chunk ends at {stop} of {total}"
  | totalDiffers total stored ref =>
    s!"total size {total} does not match stored size {stored} for {ref}"
  | gap offset stored ref =>
    s!"chunk at offset {offset} leaves a gap after {stored} stored bytes of {ref}"
  | incomplete ref stored total =>
    s!"payload {ref} is incomplete: {stored} of {total} bytes stored"
  | beyondEnd offset total => s!"offset {offset} beyond end {total}"

/-- How a call over HTTP fails before or in spite of an answer. -/
inductive HttpFailure where
  | invalidReference (ref : String)
  | noPath (endpoint : String)
  | schemeNotAllowed (url : String)
  | unanswered (url : String) (why : Http.Fault)
  | status (line : String) (body : String)
  | missingTotal
  | bodyEndedEarly
deriving DecidableEq, Repr

def totalHeader : String := "x-chunk-total-size"

def lastHeader : String := "x-chunk-is-last"

def HttpFailure.message : HttpFailure → String
  | invalidReference ref => "invalid chunk reference " ++ Quoted.write ref
  | noPath endpoint => s!"endpoint {endpoint} cannot hold a path"
  | schemeNotAllowed url => s!"builder error for url ({url}): URL scheme is not allowed"
  | unanswered url why => s!"error sending request for url ({url}): {why.message}"
  | status line body => s!"chunk host returned {line}: {body}"
  | missingTotal => s!"missing {totalHeader} header"
  | bodyEndedEarly =>
    "request or response body error: error reading a body from connection: " ++
      "end of file before message length reached"

inductive CallError where
  | notFound (ref : String)
  | refused (why : Refusal)
  | http (why : HttpFailure)
  | other (text : String)
deriving DecidableEq, Repr

def CallError.message : CallError → String
  | notFound ref => s!"chunk reference not found: {ref}"
  | refused why => why.message
  | http why => why.message
  | other text => text

end Stowage.Chunk
