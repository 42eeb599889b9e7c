import AppBroker.Hub.Install
import AppBroker.World

/-!
# Setting up a broker

A broker is set up from settings: its hub and its store get their directories, and its proxy URL
names the router. The runtime is not connected to any engine yet.
-/

namespace AppBroker.Broker

/-- Sets up a broker: the hub first, then the router, then the store. -/
def ofSettings (s : Settings) : Action Disk Broker := do
  let hub := Path.ofShown s.hubDirectory
  Hub.prepare hub
  let router ← Router.ofUrl s.proxyUrl
  let store := Path.ofShown s.storeDirectory
  Disk.update (·.makeDirectories store)
  return { hub, store, router, platform := s.platform
           runtime := { settings := s.runtime, domain := s.platform.domain } }

end AppBroker.Broker
