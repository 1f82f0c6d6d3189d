import Mathlib.Data.List.Basic
import Mathlib.Data.List.Sort

/-!
# Channel URIs

`ParseChannelUri` and `String` of `aeron/channeluri.go`. The parser is a machine over the bytes of a string. A Go string is its
bytes. The machine reads a byte and appends `string(c)`, which is the UTF-8 encoding of the code point
`c`: the byte itself below `0x80`, two bytes from there on. An error comes with the URI as far as it was
parsed.
-/

namespace AeronGo

/-- A Go string. -/
abbrev Bytes := List UInt8

/-- The bytes of a literal. -/
def utf8 (s : String) : Bytes := s.toUTF8.toList

structure ChannelUri where
  /-- The source's `prefix`. -/
  qualifier : Bytes := []
  media : Bytes := []
  params : Bytes → Option Bytes := fun _ => none

namespace ChannelUri

def spyQualifier : Bytes := utf8 "aeron-spy"

def spyPrefix : Bytes := utf8 "aeron-spy:"

def aeronPrefix : Bytes := utf8 "aeron:"

variable (uri : ChannelUri)

/-- `uri.params[key] = value`. -/
def set (key value : Bytes) : ChannelUri :=
  { uri with params := fun k => if k = key then some value else uri.params k }

/-- `Get`: a key that is not there has the empty value. -/
def get (key : Bytes) : Bytes := (uri.params key).getD []

/-- `string(c)` of a byte. -/
def charString (c : UInt8) : Bytes := if c < 0x80 then [c] else [(0xC0 : UInt8) ||| (c >>> 6), (0x80 : UInt8) ||| (c &&& 0x3F)]

inductive ParseState where
  | media
  | paramsKey
  | paramsValue
deriving DecidableEq, Repr

/-- The variables of the loop. -/
structure Parser where
  state : ParseState
  value : Bytes
  key : Bytes
  uri : ChannelUri

/-- The body of the loop, for the byte `c`. -/
def Parser.step (p : Parser) (c : UInt8) : Except Bytes Parser :=
  match p.state with
  | .media =>
    if c = 63 then .ok { p with uri := { p.uri with media := p.value }, value := [], state := .paramsKey } -- '?'
    else if c = 58 then .error (utf8 "encountered ':' within media definition")
    else .ok { p with value := p.value ++ charString c }
  | .paramsKey =>
    if c = 61 then .ok { p with key := p.value, value := [], state := .paramsValue } -- '='
    else .ok { p with value := p.value ++ charString c }
  | .paramsValue =>
    if c = 124 then .ok { p with uri := p.uri.set p.key p.value, value := [], state := .paramsKey } -- '|'
    else .ok { p with value := p.value ++ charString c }

/-- The switch behind the loop. -/
def Parser.finish (p : Parser) : ChannelUri × Option Bytes :=
  match p.state with
  | .media => ({ p.uri with media := p.value }, none)
  | .paramsValue => (p.uri.set p.key p.value, none)
  | .paramsKey => (p.uri, some (utf8 "no more input found"))

/-- The loop. -/
def Parser.run (p : Parser) : Bytes → ChannelUri × Option Bytes
  | [] => p.finish
  | c :: rest =>
    match p.step c with
    | .ok p => p.run rest
    | .error err => (p.uri, some err)

/-- The loop over what is behind the scheme. -/
def parseFrom (uriStr : Bytes) : ChannelUri × Option Bytes :=
  if aeronPrefix.isPrefixOf uriStr then Parser.run ⟨.media, [], [], uri⟩ (uriStr.drop aeronPrefix.length)
  else (uri, some (utf8 "aeron URIs must start with 'aeron:', found '" ++ uriStr ++ utf8 "'"))

/-- `ParseChannelUri`. -/
def parseChannelUri (uriStr : Bytes) : ChannelUri × Option Bytes :=
  if spyPrefix.isPrefixOf uriStr then parseFrom { qualifier := spyQualifier } (uriStr.drop spyPrefix.length)
  else parseFrom {} uriStr

/-- The keys of the parameters, in an order in which `range` may give them. -/
structure HasKeys (uri : ChannelUri) (keys : List Bytes) : Prop where
  distinct : keys.Nodup
  mem_iff : ∀ k, k ∈ keys ↔ (uri.params k).isSome

/-- `String`, with the keys as `range` gives them. -/
def string (keys : List Bytes) : Bytes :=
  let result :=
    if uri.qualifier ≠ [] then
      if [58].isSuffixOf uri.qualifier then uri.qualifier else uri.qualifier ++ [58] -- ':'
    else []
  let result := result ++ aeronPrefix ++ uri.media
  if 0 < keys.length then
    let sortedKeys := keys.insertionSort (· ≤ ·)
    let result := sortedKeys.foldl (fun result k => result ++ (k ++ [61] ++ uri.get k ++ [124])) (result ++ [63])
    result.dropLast
  else result

end ChannelUri

end AeronGo
