import Hotplug.Wire
/-!
The messages by which a container runtime tells about pod sandboxes, as far as they are
needed, and their wire form. Maps are lists of entries without a repeated key.
-/
namespace Hotplug.Sandbox

open Hotplug.Wire

structure Filter where
  id : String := ""
  labels : TextMap := []
  deriving DecidableEq, Repr

structure ListRequest where
  filter : Option Filter := none
  deriving DecidableEq, Repr

structure Listed where
  id : String := ""
  labels : TextMap := []
  deriving DecidableEq, Repr

structure ListResponse where
  items : List Listed := []
  deriving DecidableEq, Repr

structure StatusRequest where
  id : String := ""
  verbose : Bool := false
  deriving DecidableEq, Repr

structure StatusResponse where
  info : TextMap := []
  deriving DecidableEq, Repr

def Filter.write (f : Filter) : List UInt8 := writeText 1 f.id ++ writeMap 3 f.labels

def Filter.merge : Merge Filter := fun depth number =>
  match number with
  | 1 => textField (fun v f => { f with id := v }) depth number
  | 3 => mapField (·.labels) (fun v f => { f with labels := v }) depth number
  | _ => ignore depth number

namespace ListRequest

def write (r : ListRequest) : List UInt8 :=
  match r.filter with
  | some f => writeBytes 1 f.write
  | none => []

def merge : Merge ListRequest := fun depth number =>
  match number with
  | 1 => messageField Filter.merge (·.filter.getD {}) (fun v r => { r with filter := some v })
    depth number
  | _ => ignore depth number

def read (bytes : List UInt8) : Option ListRequest := decode merge {} bytes

end ListRequest

def Listed.write (s : Listed) : List UInt8 := writeText 1 s.id ++ writeMap 5 s.labels

def Listed.merge : Merge Listed := fun depth number =>
  match number with
  | 1 => textField (fun v s => { s with id := v }) depth number
  | 5 => mapField (·.labels) (fun v s => { s with labels := v }) depth number
  | _ => ignore depth number

namespace ListResponse

def write (r : ListResponse) : List UInt8 := r.items.flatMap fun s => writeBytes 1 s.write

def merge : Merge ListResponse := fun depth number =>
  match number with
  | 1 => messageField Listed.merge (fun _ => {}) (fun v r => { r with items := r.items ++ [v] })
    depth number
  | _ => ignore depth number

def read (bytes : List UInt8) : Option ListResponse := decode merge {} bytes

end ListResponse

namespace StatusRequest

def write (r : StatusRequest) : List UInt8 := writeText 1 r.id ++ writeFlag 2 r.verbose

def merge : Merge StatusRequest := fun depth number =>
  match number with
  | 1 => textField (fun v r => { r with id := v }) depth number
  | 2 => flagField (fun v r => { r with verbose := v }) depth number
  | _ => ignore depth number

def read (bytes : List UInt8) : Option StatusRequest := decode merge {} bytes

end StatusRequest

namespace StatusResponse

def write (r : StatusResponse) : List UInt8 := writeMap 2 r.info

def merge : Merge StatusResponse := fun depth number =>
  match number with
  | 2 => mapField (·.info) (fun v r => { r with info := v }) depth number
  | _ => ignore depth number

def read (bytes : List UInt8) : Option StatusResponse := decode merge {} bytes

end StatusResponse

end Hotplug.Sandbox
