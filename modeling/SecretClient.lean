import SecretClient.Client.Builder
import SecretClient.Client.Run
import SecretClient.Proofs.Client.BodyText
import SecretClient.Proofs.Client.Canonical
import SecretClient.Proofs.Client.Confined
import SecretClient.Proofs.Client.Disregard
import SecretClient.Proofs.Client.Endpoint
import SecretClient.Proofs.Client.Exchange
import SecretClient.Proofs.Client.Gaps
import SecretClient.Proofs.Client.Inside
import SecretClient.Proofs.Client.Integers
import SecretClient.Proofs.Client.LoginBody
import SecretClient.Proofs.Client.LoginReply
import SecretClient.Proofs.Client.LossyBody
import SecretClient.Proofs.Client.Revocation
import SecretClient.Proofs.Client.Revoked
import SecretClient.Proofs.Client.Secrecy
import SecretClient.Proofs.Client.Spellings
import SecretClient.Proofs.Client.Status
import SecretClient.Proofs.Client.Token
import SecretClient.Proofs.Client.Typed
import SecretClient.Proofs.Client.Unset
import SecretClient.Proofs.Client.WirePath
import SecretClient.Proofs.Strategy
