import NixSecrets.DeployableSchema
import NixSecrets.InventoryRows

namespace NixSecrets.Tui

namespace View

end View

end NixSecrets.Tui
