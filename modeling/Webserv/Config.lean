import Webserv.Bytes
import Webserv.OrdMap

/-!
# The parsed configuration

`ServerConfig` and `Location` with the defaults of their constructors. A
pointer to either is modelled by the value it points to: the
configuration is not written after start-up.
-/

namespace Webserv

open Bytes

structure Location where
  location : Bytes := []
  allowedMethods : List Bytes := [lit "GET", lit "POST", lit "DELETE"]
  root : Bytes := []
  autoindex : Bool := false
  index : Bytes := lit "index.html"
  isRedirect : Bool := false
  redirectUrl : Bytes := []
  isRedirectPermanent : Bool := false
  redirectCode : Int := 0
  useCgi : Bool := false
  cgiPath : Bytes := []
  uploadStore : Bytes := []
  hasReturn : Bool := false
  returnCode : Int := 0
  returnMessage : Bytes := []
deriving DecidableEq

def defaultClientMaxBodySize : Nat := 1024 * 1024

structure ServerConfig where
  port : Nat := 80
  host : Bytes := lit "0.0.0.0"
  serverNames : List Bytes := [lit "localhost"]
  errorPages : OrdMap Int Bytes := OrdMap.empty
  clientMaxBodySize : Nat := defaultClientMaxBodySize
  locations : List Location := []
deriving DecidableEq

/-- The server blocks that share one listening socket. `StartServer`
only opens a socket for an address some block names, so a group has a
first block, the default one. -/
structure ServerGroup where
  first : ServerConfig
  others : List ServerConfig := []
deriving DecidableEq

def ServerGroup.toList (g : ServerGroup) : List ServerConfig :=
  g.first :: g.others

end Webserv
